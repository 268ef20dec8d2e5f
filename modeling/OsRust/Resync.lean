import OsRust.Sgr

/-!
What an escape sequence leaves behind: the parser comes back to text at an `m` and nowhere
else, so that a sequence that is not one for colours, or that is cut off, takes the text after
it along.
-/

namespace OsRust.Resync

open OsRust.Console OsRust.Sgr OsRust.Lib.Machine

/-- `ESC [ p f` with parameter bytes `p` and the final byte `f`. -/
structure Csi (s p : List UInt8) (f : UInt8) : Prop where
  bytes : s = [0x1B, 0x5B] ++ p ++ [f]
  params : ∀ c ∈ p, 0x30 ≤ c ∧ c ≤ 0x3F
  final : 0x40 ≤ f ∧ f ≤ 0x7E

/-- A sequence that is not one for colours. -/
def Unsupported (s : List UInt8) : Prop := ∃ p f, Csi s p f ∧ f ≠ 0x6D

/-- The beginning of a sequence. -/
def CutOff (s : List UInt8) : Prop := ∃ r p f, Csi (s ++ r) p f ∧ r ≠ []

/-- Pixels, cursor, colours and parser. -/
def visible (t : Terminal) : List UInt32 × (UInt64 × UInt64) × Colors × AnsiState :=
  (t.framebuffer.addr, (t.cursorX, t.cursorY), colors t, t.ansiState)

/-- The bytes `w` end in the same terminal with the bytes `s` before them and without. -/
def EndsAlike (t : Terminal) (s w : List UInt8) : Prop :=
  (t.recvBytes (s ++ w)).map visible = (t.recvBytes w).map visible

variable {t t' : Terminal} {s p w : List UInt8} {f : UInt8}

lemma params_no_m (h : ∀ c ∈ p, 0x30 ≤ c ∧ c ≤ 0x3F) : 0x6D ∉ p := by
  intro hm
  exact absurd (h _ hm).2 (by decide)

lemma recvByte_text {c : UInt8} (h : t.ansiState = .ground) (hc : c ≠ 0x1B)
    (hr : t.recvByte c = .ok t') : t'.ansiState = .ground := by
  have hstate := recvByte_state (r := .ground) h hr
  rwa [Reading.step, if_neg hc] at hstate

lemma recvBytes_text (h : t.ansiState = .ground) (hw : 0x1B ∉ w)
    (hr : t.recvBytes w = .ok t') : t'.ansiState = .ground := by
  induction w generalizing t with
  | nil =>
    cases hr
    exact h
  | cons c w ih =>
    obtain ⟨hc, hw⟩ := not_or.mp (mt List.mem_cons.mpr hw)
    obtain ⟨t₁, h₁, hr⟩ := run_cons_ok.mp hr
    exact ih (recvByte_text h (Ne.symm hc) h₁) hw hr

lemma not_endsAlike (h : t.recvBytes (s ++ w) = .ok t')
    (hne : ∀ t'', t.recvBytes w = .ok t'' → t''.ansiState ≠ t'.ansiState) :
    ¬EndsAlike t s w := by
  intro he
  rw [EndsAlike, h] at he
  cases hw : t.recvBytes w with
  | error e =>
    rw [hw] at he
    contradiction
  | ok t'' =>
    rw [hw] at he
    have hst := congrArg (fun r => r.map fun v => v.2.2.2) he
    exact hne t'' hw (Except.ok.inj hst).symm

/-- **A sequence that is not one for colours takes the text along.** Up to the next `m` nothing
of what follows is drawn. -/
theorem unsupported_swallows (h : t.ansiState = .ground) (hs : Unsupported s) (hw : 0x6D ∉ w) :
    ∃ c, t.recvBytes (s ++ w ++ [0x6D]) = .ok (recolor t c) := by
  obtain ⟨p, f, hcsi, hf⟩ := hs
  have hm : 0x6D ∉ p ++ [f] ++ w := by
    simp [params_no_m hcsi.params, Ne.symm hf, hw]
  refine ⟨_, (congrArg t.recvBytes ?_).trans (recvBytes_sequence h hm)⟩
  rw [hcsi.bytes]
  simp only [List.append_assoc]

/-- Text that does not come back to the parser by an escape or an `m` ends elsewhere. -/
theorem unsupported_differs (h : t.ansiState = .ground) (hs : Unsupported s) (hesc : 0x1B ∉ w)
    (hm : 0x6D ∉ w) : ¬EndsAlike t s w := by
  obtain ⟨p, f, hcsi, hf⟩ := hs
  have hall : 0x6D ∉ p ++ [f] ++ w := by
    simp [params_no_m hcsi.params, Ne.symm hf, hm]
  obtain ⟨closed, last, room, -, hread⟩ := recvBytes_csi h hall
  have hbytes : s ++ w = [0x1B, 0x5B] ++ (p ++ [f] ++ w) := by
    rw [hcsi.bytes]
    simp only [List.append_assoc]
  rw [← hbytes] at hread
  refine not_endsAlike hread fun t' ht' => ?_
  rw [recvBytes_text h hesc ht']
  exact fun hst => by contradiction

/-- What is left of a sequence that is cut off: nothing, its escape, or parameters. -/
lemma cutOff_cases (hs : CutOff s) :
    s = [] ∨ s = [0x1B] ∨ ∃ q, s = [0x1B, 0x5B] ++ q ∧ 0x6D ∉ q := by
  obtain ⟨r, p, f, hcsi, hr⟩ := hs
  have hbytes : s ++ r = 0x1B :: 0x5B :: (p ++ [f]) := hcsi.bytes
  rcases s with _ | ⟨a, _ | ⟨b, q⟩⟩
  · exact .inl rfl
  · obtain ⟨rfl, -⟩ := List.cons.inj hbytes
    exact .inr (.inl rfl)
  · obtain ⟨rfl, htail⟩ := List.cons.inj hbytes
    obtain ⟨rfl, hrest⟩ := List.cons.inj htail
    change q ++ r = p ++ [f] at hrest
    obtain ⟨r', z, rfl⟩ := List.eq_nil_or_concat' r |>.resolve_left hr
    rw [← List.append_assoc] at hrest
    obtain ⟨hq, -⟩ := List.append_inj' hrest rfl
    refine .inr (.inr ⟨q, rfl, fun hm => ?_⟩)
    exact params_no_m hcsi.params (hq ▸ List.mem_append_left r' hm)

/-- An escape does not begin a sequence where one is cut off. -/
lemma cutOff_differs (h : t.ansiState = .ground) (hs : CutOff s) (hne : s ≠ []) :
    ¬EndsAlike t s [0x1B] := by
  have hesc : t.recvBytes [0x1B] = .ok (inState t .escape) := by
    rw [Terminal.recvBytes, run, Terminal.recvByte, h]
    rfl
  have hdiff : ∀ {t'}, t.recvBytes (s ++ [0x1B]) = .ok t' → t'.ansiState ≠ .escape →
      ¬EndsAlike t s [0x1B] := by
    intro t' ht' hst
    refine not_endsAlike ht' fun t'' ht'' => ?_
    cases hesc.symm.trans ht''
    exact Ne.symm hst
  rcases cutOff_cases hs with rfl | rfl | ⟨q, rfl, hq⟩
  · exact absurd rfl hne
  · -- the second escape ends what the first began
    have hback : t.recvBytes [0x1B, 0x1B] = .ok (inState (inState t .escape) .ground) :=
      run_append_ok.mpr ⟨_, hesc, rfl⟩
    exact hdiff hback fun hst => by contradiction
  · -- the escape is skipped like a parameter
    have hm : 0x6D ∉ q ++ [0x1B] := by simp [hq]
    obtain ⟨closed, last, room, -, hread⟩ := recvBytes_csi h hm
    rw [← List.append_assoc] at hread
    exact hdiff hread fun hst => by contradiction

/-- **What an escape sequence leaves behind.** No sequence but one for colours is without
effect on all that can follow, and of what is cut off only nothing is without effect on the
sequences that follow. -/
theorem endsAlike_iff (h : t.ansiState = .ground) :
    (∀ s, Unsupported s → ¬∀ w, EndsAlike t s w) ∧
    ∀ s, CutOff s → ((∀ w, w.head? = some 0x1B → EndsAlike t s w) ↔ s = []) := by
  refine ⟨fun s hs hall => ?_, fun s hs => ⟨fun hall => ?_, ?_⟩⟩
  · exact unsupported_differs h hs List.not_mem_nil List.not_mem_nil (hall [])
  · by_contra hne
    exact cutOff_differs h hs hne (hall [0x1B] rfl)
  · rintro rfl w -
    rfl

/-- `ESC [ 2 J`. -/
def erase : List UInt8 := [0x1B, 0x5B, 0x32, 0x4A]

/-- `ESC [ 3`, where an `m` should follow. -/
def cutRed : List UInt8 := [0x1B, 0x5B, 0x33]

lemma erase_unsupported : Unsupported erase :=
  ⟨[0x32], 0x4A, ⟨rfl, List.forall_mem_singleton.mpr (by decide), by decide⟩, by decide⟩

lemma cutRed_csi : Csi (cutRed ++ [0x6D]) [0x33] 0x6D :=
  ⟨rfl, List.forall_mem_singleton.mpr (by decide), by decide⟩

lemma cutRed_cutOff : CutOff cutRed := ⟨[0x6D], [0x33], 0x6D, cutRed_csi, List.cons_ne_nil _ _⟩

-- an erase, a sequence that is cut off, and nothing at all
theorem endsAlike_iff_small :
    (¬∀ w, EndsAlike (Terminal.new (fun _ => 0) small) erase w) ∧
    (¬∀ w, w.head? = some 0x1B → EndsAlike (Terminal.new (fun _ => 0) small) cutRed w) ∧
    EndsAlike (Terminal.new (fun _ => 0) small) [] (Sgr.sequence [[3, 1]]) := by
  obtain ⟨hunsupported, hcut⟩ :=
    endsAlike_iff (t := Terminal.new (fun _ => 0) small) rfl
  refine ⟨hunsupported erase erase_unsupported, fun hall => ?_, ?_⟩
  · have hnil := (hcut cutRed cutRed_cutOff).mp hall
    cases hnil
  · exact (hcut [] ⟨_, _, _, cutRed_csi, List.cons_ne_nil _ _⟩).mpr rfl _ rfl

/-- After an erase, `ESC [ 2 J`, a letter is lost, and after a 3 that is cut off what should be
red is not. -/
theorem erase_swallows :
    (¬∀ (t : Terminal) (s w : List UInt8), t.ansiState = .ground → Unsupported s →
      EndsAlike t s w) ∧
    ¬∀ (t : Terminal) (s w : List UInt8), t.ansiState = .ground → CutOff s →
      w.head? = some 0x1B → EndsAlike t s w := by
  constructor
  · intro h
    exact unsupported_differs (t := Terminal.new (fun _ => 0) small) (w := [0x41]) rfl
      erase_unsupported (by decide) (by decide) (h _ _ _ rfl erase_unsupported)
  · intro h
    have halike :=
      h (Terminal.new (fun _ => 0) small) _ (Sgr.sequence [[3, 1]]) rfl cutRed_cutOff rfl
    have hcolors := congrArg (fun r => r.map fun v => v.2.2.1.fg) halike
    have hplain : ((((Terminal.new (fun _ => 0) small).recvBytes
        (cutRed ++ Sgr.sequence [[3, 1]])).map visible).map fun v => v.2.2.1.fg) =
        .ok 0xC0C0C0 := by
      rfl
    have hred : ((((Terminal.new (fun _ => 0) small).recvBytes
        (Sgr.sequence [[3, 1]])).map visible).map fun v => v.2.2.1.fg) = .ok 0xF7768E := by
      rfl
    rw [hplain, hred] at hcolors
    exact absurd hcolors (by decide)

/-! ### What still gets through -/

/-- Inside a sequence the beginning of another is skipped. -/
lemma recvBytes_skips {closed : List Digits} {last : Digits} (room : closed.length < 8)
    (h : t.ansiState = (Reading.arg closed last room).state) :
    t.recvBytes [0x1B, 0x5B] = .ok t := by
  have hskip : ∀ c ∈ [(0x1B : UInt8), 0x5B], t.recvByte c = .ok t := by
    intro c hc
    have hsame : (Reading.arg closed last room).step c = .arg closed last room := by
      rcases List.mem_pair.mp hc with rfl | rfl <;> rfl
    have hm : c ≠ 0x6D := by
      rcases List.mem_pair.mp hc with rfl | rfl <;> decide
    rw [recvByte_arg h hm, hsame, inState, ← h]
  exact run_cons_ok.mpr ⟨t, hskip 0x1B (by simp), run_cons_ok.mpr ⟨t, hskip 0x5B (by simp), rfl⟩⟩

/-- **The sequences after a broken one** are read as they are exactly where it left no argument
behind. -/
theorem restart_iff (h : t.ansiState = .ground) {q : List UInt8} (hq : 0x6D ∉ q) :
    (∀ w, EndsAlike t ([0x1B, 0x5B] ++ q) ([0x1B, 0x5B] ++ w)) ↔
      (q.foldl Reading.step .start).state = Reading.start.state := by
  obtain ⟨closed, last, room, hrun, hread⟩ := recvBytes_csi h hq
  have hbroken (w : List UInt8) : t.recvBytes ([0x1B, 0x5B] ++ q ++ ([0x1B, 0x5B] ++ w)) =
      (inState t (q.foldl Reading.step .start).state).recvBytes w := by
    rw [hrun]
    exact (run_append hread _).trans (run_append (recvBytes_skips room rfl) w)
  have hplain (w : List UInt8) : t.recvBytes ([0x1B, 0x5B] ++ w) =
      (inState t Reading.start.state).recvBytes w := run_append (recvBytes_start h) w
  constructor
  · intro hall
    have halike := hall []
    rw [EndsAlike, hbroken, hplain] at halike
    exact congrArg (fun v => v.2.2.2) (Except.ok.inj halike)
  · intro hst w
    rw [EndsAlike, hbroken, hplain, hst]

end OsRust.Resync
