import OsRust.Console
import OsRust.Lib.TextGrid

/-!
What is on the screen is the text since the last clear: every character in its own cell, in
the order of reading, and the colour of the clear everywhere else.
-/

namespace OsRust.Screen

open OsRust.Console OsRust.Lib.Machine OsRust.Lib.Raster OsRust.Lib.TextGrid

def isNewline (p : Put) : Bool := p.c == 0x0A

/-- A row has `width / 8` cells. -/
abbrev cellOf (fb : LimineFramebuffer) (puts : List Put) : ℕ × ℕ :=
  cursor (fb.width.toNat / 8) isNewline puts

abbrev cells (fb : LimineFramebuffer) (puts : List Put) : List ((ℕ × ℕ) × Put) :=
  printed (fb.width.toNat / 8) isNewline puts

def pixel (fb : LimineFramebuffer) (f : Framebuffer) (x y : ℕ) : Option UInt32 :=
  f.addr[y * fb.stride + x]?

/-- The pixels of a cell. -/
def InCell (cell : ℕ × ℕ) (x y : ℕ) : Prop :=
  (8 * cell.1 ≤ x ∧ x < 8 * cell.1 + 8) ∧ 10 * cell.2 ≤ y ∧ y < 10 * cell.2 + 10

/-- The pixels are those of the calls of `putChar` over a picture of one colour. -/
structure Drawn (fb : LimineFramebuffer) (f : Framebuffer) (color : UInt32)
    (puts : List Put) : Prop where
  glyphs : ∀ cell p, (cell, p) ∈ cells fb puts → p.c < 128 → ∀ i < 8, ∀ j < 10,
    pixel fb f (8 * cell.1 + i) (10 * cell.2 + j) = some (glyphPixel p i j)
  blank : ∀ x y, x < fb.stride → y < fb.height.toNat →
    (∀ cell p, (cell, p) ∈ cells fb puts → p.c < 128 → ¬InCell cell x y) →
    pixel fb f x y = some color

/-- The screen is the text since the last clear. -/
structure ShowsText (fb : LimineFramebuffer) (t : Terminal) : Prop where
  views : t.framebuffer.Views fb
  cursorX : t.cursorX.toNat = 8 * (cellOf fb t.puts).1
  cursorY : t.cursorY.toNat = 10 * (cellOf fb t.puts).2
  items : (cells fb t.puts).map Prod.snd = t.puts.filter fun p => !isNewline p
  inOrder : (cells fb t.puts).Pairwise fun p q => Before q.1 p.1
  nodup : ((cells fb t.puts).map Prod.fst).Nodup
  inside : ∀ q ∈ cells fb t.puts, q.1.1 < fb.width.toNat / 8 ∧ q.1.2 < fb.height.toNat / 10
  drawn : Drawn fb t.framebuffer t.clearColor t.puts

variable {fb : LimineFramebuffer} {f f' : Framebuffer} {t : Terminal} {color : UInt32}
  {puts : List Put} {p : Put}

lemma cols_pos (hu : Usable fb) : 0 < fb.width.toNat / 8 :=
  Nat.div_pos hu.wide_toNat (by decide)

lemma glyphInk_inside {x y i j : ℕ} (hp : p.c < 128) (hi : i < 8) (hj : j < 10) :
    glyphInk x y p (x + i) (y + j) = some (glyphPixel p i j) := by
  rw [glyphInk, if_pos hp]
  exact block_apply hi hj

lemma glyphInk_outside {cell : ℕ × ℕ} {x y : ℕ} (h : p.c < 128 → ¬InCell cell x y) :
    glyphInk (8 * cell.1) (10 * cell.2) p x y = none := by
  unfold glyphInk
  split
  · exact block_eq_none (h ‹_›)
  · rfl

/-- Two cells have no pixel in common. -/
lemma inCell_unique {c d : ℕ × ℕ} {x y : ℕ} (hc : InCell c x y) (hd : InCell d x y) : c = d := by
  unfold InCell at hc hd
  exact Prod.ext (by omega) (by omega)

lemma drawn_clear (hv : t.framebuffer.Views fb) :
    Drawn fb t.clear.framebuffer t.bgColor [] := by
  refine ⟨fun cell p h => absurd h (List.not_mem_nil), fun x y hx hy _ => ?_⟩
  have hlt : y * fb.stride + x < t.framebuffer.addr.length := by
    rw [hv.length]
    exact pixel_lt hx hy
  exact List.getElem?_replicate_of_lt hlt

lemma Drawn.newline (h : Drawn fb f color puts) (hp : isNewline p = true) :
    Drawn fb f color (p :: puts) := by
  have hc : cells fb (p :: puts) = cells fb puts := printed_newline hp
  exact ⟨by rw [hc]; exact h.glyphs, by rw [hc]; exact h.blank⟩

/-- A glyph drawn at the cursor takes the next cell and leaves the others as they are. -/
lemma Drawn.glyph (hu : Usable fb) (hv : f.Views fb) (h : Drawn fb f color puts)
    (hp : isNewline p = false) (hy : 10 * (cellOf fb puts).2 + 10 ≤ fb.height.toNat)
    (hd : Draws fb f f'
      (glyphInk (8 * (cellOf fb puts).1) (10 * (cellOf fb puts).2) p)) :
    Drawn fb f' color (p :: puts) := by
  have hw := hu.width_le
  have hpos := cols_pos hu
  have hc : cells fb (p :: puts) = (cellOf fb puts, p) :: cells fb puts := printed_cons hp
  constructor
  · intro cell q hq hlt i hi j hj
    rw [hc] at hq
    rcases List.mem_cons.mp hq with heq | hq
    · -- the new cell
      obtain ⟨rfl, rfl⟩ := Prod.mk.injEq .. ▸ heq
      have hcol : (cellOf fb puts).1 < fb.width.toNat / 8 := cursor_col hpos
      have hx : 8 * (cellOf fb puts).1 + i < fb.stride := by omega
      refine hd.painted.touched hx ?_ (glyphInk_inside hlt hi hj)
      rw [hv.length]
      exact pixel_lt hx (by omega)
    · -- a cell taken earlier
      have hcol : cell.1 < fb.width.toNat / 8 := printed_col hpos hq
      have hne : cell ≠ cellOf fb puts := (printed_before hq).ne
      have hin : InCell cell (8 * cell.1 + i) (10 * cell.2 + j) := by
        unfold InCell
        omega
      rw [← h.glyphs cell q hq hlt i hi j hj]
      refine hd.painted.untouched (by omega) (glyphInk_outside fun _ hn => ?_)
      exact hne (inCell_unique hin hn)
  · intro x y hx hy hn
    rw [hc] at hn
    rw [← h.blank x y hx hy fun cell q hq => hn cell q (List.mem_cons_of_mem _ hq)]
    exact hd.painted.untouched hx (glyphInk_outside (hn _ p List.mem_cons_self))

/-! ### Runs -/

/-- The screen after a clear: what there is to keep. -/
structure Inv (fb : LimineFramebuffer) (t : Terminal) : Prop where
  bounds : InBounds fb t
  cursorX : t.cursorX.toNat = 8 * (cellOf fb t.puts).1
  cursorY : t.cursorY.toNat = 10 * (cellOf fb t.puts).2
  drawn : Drawn fb t.framebuffer t.clearColor t.puts

lemma inv_clear (hu : Usable fb) (hv : t.framebuffer.Views fb) (ha : t.ansiState.Ok) :
    Inv fb t.clear :=
  ⟨clear_inBounds hu hv ha, rfl, rfl, drawn_clear hv⟩

/-- The end of a line, when the calls so far put the cursor at the start of the next row. -/
lemma inv_lineFeed (hu : Usable fb) (hv : t.framebuffer.Views fb) (ha : t.ansiState.Ok)
    (hy : t.cursorY.toNat + 10 ≤ fb.height.toNat) {row : ℕ} (hrow : t.cursorY.toNat = 10 * row)
    (hc : cellOf fb t.puts = (0, row + 1)) (hd : Drawn fb t.framebuffer t.clearColor t.puts) :
    Inv fb t.lineFeed := by
  have hb := lineFeed_inBounds hu hv hy ha
  rw [lineFeed_eq hu hv hy] at hb ⊢
  split at hb
  · rw [if_pos ‹_›]
    exact inv_clear hu hv ha
  · rw [if_neg ‹_›]
    refine ⟨hb, ?_, ?_, hd⟩
    · rw [hc]
      rfl
    · rw [hc]
      simp only [cursorY_next hu hy]
      omega

lemma inv_putChar (hu : Usable fb) (h : Inv fb t) (c : UInt8) :
    ∃ t', t.putChar c = .ok t' ∧ Inv fb t' := by
  by_cases hc : c = 0x0A
  · subst hc
    refine ⟨_, putChar_newline t, ?_⟩
    exact inv_lineFeed (t := record t 0x0A) hu h.bounds.views h.bounds.ansi h.bounds.cursorY
      h.cursorY (cursor_break (.inl rfl)) (h.drawn.newline rfl)
  · have hnl : isNewline ⟨c, t.fgColor, t.bgColor⟩ = false := by simpa [isNewline] using hc
    obtain ⟨f, hd, hp⟩ := putChar_glyph hu h.bounds hc
    have hx := h.cursorX
    have hy := h.cursorY
    rw [hx, hy] at hd
    have hbx := h.bounds.cursorX
    have hby := h.bounds.cursorY
    have hdr : Drawn fb f t.clearColor (record t c).puts :=
      h.drawn.glyph hu h.bounds.views hnl (by omega) hd
    refine ⟨_, hp, ?_⟩
    split
    · -- the last column
      have hle : fb.width.toNat / 8 ≤ (cellOf fb t.puts).1 + 1 := by omega
      exact inv_lineFeed hu hd.views h.bounds.ansi hby hy (cursor_break (.inr hle)) hdr
    · have hlt : ¬fb.width.toNat / 8 ≤ (cellOf fb t.puts).1 + 1 := by omega
      have hr : cellOf fb (record t c).puts =
          ((cellOf fb t.puts).1 + 1, (cellOf fb t.puts).2) :=
        cursor_right (not_or.mpr ⟨by simp [hnl], hlt⟩)
      have hx8 := cursorX_next hu hbx
      refine ⟨⟨hd.views, ?_, hby, h.bounds.ansi⟩, ?_, ?_, hdr⟩
      · simp only [hx8]
        omega
      · simp only [hx8, hr]
        omega
      · simp only [hr]
        exact hy

lemma inv_call (hu : Usable fb) (t : Terminal) (a : Call) (h : Inv fb t) :
    ∃ t', call t a = .ok t' ∧ Inv fb t' := by
  refine call_keeps (fun _ ht => ht.bounds.ansi)
    (fun _ ht => inv_clear hu ht.bounds.views ht.bounds.ansi)
    (fun _ c ht => inv_putChar hu ht c) (fun _ _ _ _ ht hst => ?_) t a h
  obtain ⟨hv, hx, hy, _⟩ := ht.bounds
  exact ⟨⟨hv, hx, hy, hst⟩, ht.cursorX, ht.cursorY, ht.drawn⟩

lemma Inv.showsText (hu : Usable fb) (h : Inv fb t) : ShowsText fb t where
  views := h.bounds.views
  cursorX := h.cursorX
  cursorY := h.cursorY
  items := printed_items t.puts
  inOrder := printed_inOrder t.puts
  nodup := printed_nodup t.puts
  inside q hq := by
    have hb : Before q.1 (cellOf fb t.puts) := printed_before hq
    have hy := h.bounds.cursorY
    rw [h.cursorY] at hy
    refine ⟨printed_col (cols_pos hu) hq, ?_⟩
    unfold Before at hb
    omega
  drawn := h.drawn

/-! ### The record -/

/-- The calls, a byte at a time. -/
def bytewise : List Call → List Call
  | [] => []
  | .recvBytes buf :: calls => buf.map .recvByte ++ bytewise calls
  | a :: calls => a :: bytewise calls

/-- The character a call passes to `put_char`. -/
def printedBy (t : Terminal) : Call → Option UInt8
  | .putChar c => some c
  | .recvByte c =>
    match t.ansiState with
    | .ground => if c = 0x1B then none else some c
    | _ => none
  | _ => none

/-- Every pixel has the colour, the cursor is at the start, and nothing is on record. -/
structure Cleared (color : UInt32) (t : Terminal) : Prop where
  pixels : ∀ p ∈ t.framebuffer.addr, p = color
  cursor : t.cursorX = 0 ∧ t.cursorY = 0
  clearColor : t.clearColor = color
  puts : t.puts = []

/-- A call of `put_char` goes on record, with the colours in force, unless it has the screen cleared;
and nothing else does. -/
def Recorded (t : Terminal) (a : Call) (t' : Terminal) : Prop :=
  match a with
  | .clear => Cleared t.bgColor t'
  | .scroll _ => Cleared t.bgColor t'
  | _ => Cleared t.bgColor t' ∨ t'.clearColor = t.clearColor ∧
      t'.puts = ((printedBy t a).map fun c => ⟨c, t.fgColor, t.bgColor⟩).toList ++ t.puts

/-- The calls lead to `t'`, a byte at a time, and the record is that of each. -/
structure OnRecord (t : Terminal) (calls : List Call) (t' : Terminal) : Prop where
  run : run call t (bytewise calls) = .ok t'
  steps : AllSteps call (fun t a => ∀ t', call t a = .ok t' → Recorded t a t') t (bytewise calls)

variable {t' : Terminal} {a : Call} {calls : List Call}

lemma cleared_clear (t : Terminal) : Cleared t.bgColor t.clear :=
  ⟨fun _ hp => List.eq_of_mem_replicate hp, ⟨rfl, rfl⟩, rfl, rfl⟩

lemma lineFeed_cases (t : Terminal) : Cleared t.bgColor t.lineFeed ∨
    t.lineFeed.clearColor = t.clearColor ∧ t.lineFeed.puts = t.puts := by
  unfold Terminal.lineFeed
  dsimp only
  split
  · exact .inl (cleared_clear { t with cursorX := 0, cursorY := t.cursorY + 10 })
  · exact .inr ⟨rfl, rfl⟩

lemma putChar_recorded {c : UInt8} (h : t.putChar c = .ok t') : Cleared t.bgColor t' ∨
    t'.clearColor = t.clearColor ∧ t'.puts = ⟨c, t.fgColor, t.bgColor⟩ :: t.puts := by
  by_cases hc : c = 0x0A
  · subst hc
    cases h
    exact lineFeed_cases (record t 0x0A)
  · rw [Terminal.putChar, if_neg hc] at h
    obtain ⟨f, -, h⟩ := bind_ok.mp h
    cases h
    split
    · exact lineFeed_cases { record t c with framebuffer := f, cursorX := t.cursorX + 8 }
    · exact .inr ⟨rfl, rfl⟩

lemma recvByte_recorded (ha : t.ansiState.Ok) {c : UInt8} (h : t.recvByte c = .ok t') :
    Recorded t (.recvByte c) t' := by
  cases hst : t.ansiState with
  | ground =>
    simp only [Recorded, printedBy, hst]
    simp only [Terminal.recvByte, hst] at h
    split at h
    · next hc =>
      cases h
      exact .inr ⟨rfl, by simp [hc]⟩
    · next hc =>
      rw [if_neg hc]
      exact putChar_recorded h
  | escape =>
    simp only [Recorded, printedBy, hst]
    simp only [Terminal.recvByte, hst] at h
    split at h <;> cases h <;> exact .inr ⟨rfl, rfl⟩
  | arg args =>
    simp only [Recorded, printedBy, hst]
    rw [hst] at ha
    obtain ⟨fg, bg, st, -, hr⟩ := recvByte_arg hst ha c
    cases hr.symm.trans h
    exact .inr ⟨rfl, rfl⟩

lemma call_recorded (ha : t.ansiState.Ok) (hbuf : ∀ buf, a ≠ .recvBytes buf)
    (h : call t a = .ok t') : Recorded t a t' := by
  cases a with
  | clear =>
    cases h
    exact cleared_clear t
  | scroll n =>
    cases h
    obtain ⟨hp, ⟨hx, -⟩, hc, hn⟩ := cleared_clear t
    exact ⟨hp, ⟨hx, rfl⟩, hc, hn⟩
  | putChar c => exact putChar_recorded h
  | recvByte c => exact recvByte_recorded ha h
  | recvBytes buf => exact absurd rfl (hbuf buf)

lemma not_recvBytes_of_mem (h : a ∈ bytewise calls) (buf : List UInt8) : a ≠ .recvBytes buf := by
  rintro rfl
  induction calls with
  | nil => cases h
  | cons b calls ih =>
    cases b <;> simp only [bytewise, List.mem_cons, List.mem_append, List.mem_map, reduceCtorEq,
      and_false, exists_false, false_or] at h <;> exact ih h

lemma run_recvByte {buf : List UInt8} (h : run Terminal.recvByte t buf = .ok t') :
    run call t (buf.map .recvByte) = .ok t' := by
  induction buf generalizing t with
  | nil => exact h
  | cons c buf ih =>
    obtain ⟨t₁, h₁, hr⟩ := run_cons_ok.mp h
    exact run_cons_ok.mpr ⟨t₁, h₁, ih hr⟩

lemma run_bytewise (h : run call t calls = .ok t') : run call t (bytewise calls) = .ok t' := by
  induction calls generalizing t with
  | nil => exact h
  | cons a calls ih =>
    obtain ⟨t₁, h₁, hr⟩ := run_cons_ok.mp h
    cases a with
    | recvBytes buf => exact run_append_ok.mpr ⟨t₁, run_recvByte h₁, ih hr⟩
    | _ => exact run_cons_ok.mpr ⟨t₁, h₁, ih hr⟩

lemma allSteps_recorded (hu : Usable fb) (ht : InBounds fb t)
    (hbuf : ∀ a ∈ calls, ∀ buf, a ≠ .recvBytes buf) :
    AllSteps call (fun t a => ∀ t', call t a = .ok t' → Recorded t a t') t calls := by
  induction calls generalizing t with
  | nil => trivial
  | cons a calls ih =>
    refine ⟨fun t' h => call_recorded ht.ansi (hbuf a List.mem_cons_self) h, fun t' h => ?_⟩
    obtain ⟨t₁, h₁, ht₁⟩ := call_inBounds hu t a ht
    cases h₁.symm.trans h
    exact ih ht₁ fun b hb => hbuf b (List.mem_cons_of_mem a hb)

/-- **What is on the screen is the text since the last clear.** After a clear, whatever calls
are made and whatever bytes are sent; and the text is that of the calls of `put_char`, each with the
colours in force. -/
theorem screen_shows_text (mem : UInt64 → UInt32) (fb : LimineFramebuffer) (hu : Usable fb)
    (before after : List Call) :
    ∃ t, run call (Terminal.new mem fb) (before ++ Call.clear :: after) = .ok t ∧
      ShowsText fb t ∧ OnRecord (Terminal.new mem fb) (before ++ Call.clear :: after) t := by
  obtain ⟨t₀, ht₀, hb⟩ := run_succeeds (call_inBounds hu) (inBounds_new mem hu) before
  obtain ⟨t, ht, hi⟩ := run_succeeds (inv_call hu) (inv_clear hu hb.views hb.ansi) after
  have hr : run call (Terminal.new mem fb) (before ++ Call.clear :: after) = .ok t :=
    run_append_ok.mpr ⟨t₀, ht₀, run_cons_ok.mpr ⟨t₀.clear, rfl, ht⟩⟩
  exact ⟨t, hr, hi.showsText hu, run_bytewise hr,
    allSteps_recorded hu (inBounds_new mem hu) fun _ ha => not_recvBytes_of_mem ha⟩

lemma page_mapped :
    (4096 : UInt64).toNat + (76 : UInt64).toNat * (22 : UInt64).toNat ≤ 2 ^ 64 := by decide

/-- Two columns and two rows of cells, with margins on all sides. -/
def page : LimineFramebuffer := ⟨4096, 18, 22, 76, page_mapped⟩

/-- A red letter; after the clear a line that wraps, and a newline that scrolls; then a byte without
glyph, and two letters, the second of them green. -/
def letters : List Call :=
  [Call.recvBytes [0x1B, 0x5B, 0x33, 0x31, 0x6D, 0x41]] ++
    Call.clear :: [Call.recvBytes [0x42, 0x43, 0x44], Call.recvBytes [0x0A, 0xC3, 0x45],
      Call.recvBytes [0x1B, 0x5B, 0x33, 0x32, 0x6D, 0x46]]

theorem screen_shows_text_page :
    ∃ t, run call (Terminal.new (fun _ => 0) page) letters = .ok t ∧
      t.puts.map Put.c = [0x46, 0x45, 0xC3] ∧ ShowsText page t ∧
        OnRecord (Terminal.new (fun _ => 0) page) letters t := by
  obtain ⟨t, ht, hputs⟩ := exists_run_of_map (f := fun t => t.puts.map Put.c)
    (c := [0x46, 0x45, 0xC3])
    (show (run call (Terminal.new (fun _ => 0) page) letters).map _ = _ by decide +kernel)
  obtain ⟨t', ht', hshows⟩ := screen_shows_text (fun _ => 0) page
    ⟨by decide, by decide, by decide⟩ [Call.recvBytes [0x1B, 0x5B, 0x33, 0x31, 0x6D, 0x41]]
    [Call.recvBytes [0x42, 0x43, 0x44], Call.recvBytes [0x0A, 0xC3, 0x45],
      Call.recvBytes [0x1B, 0x5B, 0x33, 0x32, 0x6D, 0x46]]
  cases ht'.symm.trans ht
  exact ⟨t, ht, hputs, hshows⟩

end OsRust.Screen
