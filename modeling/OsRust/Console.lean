import OsRust.Basic
import OsRust.Font
import OsRust.Lib.Machine
import OsRust.Lib.Raster
import Mathlib.Algebra.Group.Nat.Defs

/-!
The terminal: the pixels of a framebuffer, a cursor, and how far an escape sequence has been
read. `usize` and `u64` are `UInt64`, whose arithmetic wraps as that of a release build does.
-/

namespace OsRust.Console

open OsRust.Font OsRust.Lib.Machine OsRust.Lib.Raster

def index {α : Type} (l : List α) (i : UInt64) : Res α :=
  match l[i.toNat]? with
  | some a => .ok a
  | none => .error (.panic "index out of bounds")

def store {α : Type} (l : List α) (i : UInt64) (a : α) : Res (List α) :=
  if i.toNat < l.length then .ok (l.set i.toNat a) else .error (.panic "index out of bounds")

def slice {α : Type} (l : List α) (start stop : UInt64) : Res (List α) :=
  if start ≤ stop ∧ stop.toNat ≤ l.length then
    .ok ((l.drop start.toNat).take (stop.toNat - start.toNat))
  else .error (.panic "slice index out of range")

/-- What the bootloader tells of a framebuffer. It is memory: `pitch * height` bytes that lie
in the address space. -/
structure LimineFramebuffer where
  addr : UInt64
  width : UInt64
  height : UInt64
  pitch : UInt64
  mapped : addr.toNat + pitch.toNat * height.toNat ≤ 2 ^ 64

structure Framebuffer where
  addr : List UInt32
  width : UInt64
  height : UInt64
  pitch : UInt64

/-- The slice holds what is in memory, `mem`, at the address of the framebuffer. -/
def Framebuffer.from (mem : UInt64 → UInt32) (fb : LimineFramebuffer) : Framebuffer where
  addr := (List.range (fb.pitch / 4 * fb.height).toNat).map fun i =>
    mem (fb.addr + 4 * UInt64.ofNat i)
  width := fb.width
  height := fb.height
  pitch := fb.pitch

def Framebuffer.putPixel (fb : Framebuffer) (x y : UInt64) (color : UInt32) :
    Res Framebuffer := do
  let index := y * (fb.pitch / 4) + x
  let addr ← store fb.addr index color
  .ok { fb with addr := addr }

/-- `for col in 0..8 { self.put_pixel(x + col, y, color) }`, where the colour may depend on
the column. -/
def Framebuffer.putRow (fb : Framebuffer) (x y : UInt64) (color : UInt64 → UInt32) :
    Res Framebuffer :=
  (List.range 8).foldlM
    (fun fb col => fb.putPixel (x + UInt64.ofNat col) y (color (UInt64.ofNat col))) fb

def Framebuffer.drawGlyph (fb : Framebuffer) (x y : UInt64) (glyph : UInt8)
    (fgColor bgColor : UInt32) : Res Framebuffer :=
  if 128 ≤ glyph then .ok fb
  else do
    let fb ← fb.putRow x y fun _ => bgColor
    let glyphBitmap ← slice FONT_BITMAP_8X8 (glyph.toUInt64 * 8) ((glyph.toUInt64 + 1) * 8)
    let fb ← glyphBitmap.zipIdx.foldlM
      (fun fb (byte, row) => fb.putRow x (y + UInt64.ofNat row + 1) fun col =>
        let pixelOn := (byte >>> col.toUInt8) &&& 1
        if pixelOn ≠ 0 then fgColor else bgColor) fb
    fb.putRow x (y + 9) fun _ => bgColor

structure AnsiArgs where
  count : UInt64
  args : List UInt64

def AnsiArgs.default : AnsiArgs := ⟨1, List.replicate 8 0⟩

inductive AnsiState
  | ground
  | escape
  | arg (args : AnsiArgs)

structure Theme where
  defaultFg : UInt32
  defaultBg : UInt32
  colors : List UInt32
  brightColors : List UInt32

def TOKYO_NIGHT_THEME : Theme where
  defaultFg := 0xC0C0C0
  defaultBg := 0x1A1B26
  colors :=
    [0x1A1B26, 0xF7768E, 0x9ECE6A, 0xE0AF68, 0x7AA2F7, 0xBB9AF7, 0x7DCFFF, 0xC0C0C0]
  brightColors :=
    [0x414868, 0xFF7A93, 0xB9F27C, 0xE6C384, 0x7AA2F7, 0xBB9AF7, 0x7DCFFF, 0xFFFFFF]

def DEFAULT_THEME : Theme := TOKYO_NIGHT_THEME

/-- A call of `putChar`, with the colours in force. -/
structure Put where
  c : UInt8
  fg : UInt32
  bg : UInt32

/-- The last two fields are a record for the reader, and no part of the terminal: the colour
of the last clear, and the calls of `putChar` since then, the newest first. -/
structure Terminal where
  framebuffer : Framebuffer
  cursorX : UInt64
  cursorY : UInt64
  fgColor : UInt32
  bgColor : UInt32
  ansiState : AnsiState
  clearColor : UInt32
  puts : List Put

namespace Terminal

def new (mem : UInt64 → UInt32) (framebuffer : LimineFramebuffer) : Terminal where
  framebuffer := Framebuffer.from mem framebuffer
  cursorX := 0
  cursorY := 0
  fgColor := DEFAULT_THEME.defaultFg
  bgColor := DEFAULT_THEME.defaultBg
  ansiState := .ground
  clearColor := DEFAULT_THEME.defaultBg
  puts := []

def clear (t : Terminal) : Terminal :=
  { t with
    framebuffer :=
      { t.framebuffer with addr := List.replicate t.framebuffer.addr.length t.bgColor }
    cursorX := 0
    cursorY := 0
    clearColor := t.bgColor
    puts := [] }

def scroll (t : Terminal) (_n : UInt64) : Terminal := { t.clear with cursorY := 0 }

/-- What `putChar` does at a newline and at the end of a line. -/
def lineFeed (t : Terminal) : Terminal :=
  let t := { t with cursorX := 0, cursorY := t.cursorY + 10 }
  if t.framebuffer.height < t.cursorY + 10 then t.scroll 1 else t

def putChar (t : Terminal) (c : UInt8) : Res Terminal :=
  let t := { t with puts := ⟨c, t.fgColor, t.bgColor⟩ :: t.puts }
  -- a newline, 0x0A, is not drawn
  if c = 0x0A then .ok t.lineFeed
  else do
    let fb ← t.framebuffer.drawGlyph t.cursorX t.cursorY c t.fgColor t.bgColor
    let t := { t with framebuffer := fb, cursorX := t.cursorX + 8 }
    .ok (if t.framebuffer.width < t.cursorX + 8 then t.lineFeed else t)

/-- One turn of the loop over the arguments of an `m`. -/
def applyParam (t : Terminal) (param : UInt64) : Res Terminal :=
  if param = 0 then
    .ok { t with fgColor := DEFAULT_THEME.defaultFg, bgColor := DEFAULT_THEME.defaultBg }
  else if 30 ≤ param ∧ param ≤ 37 then do
    let color ← index DEFAULT_THEME.colors (param - 30)
    .ok { t with fgColor := color }
  else if param = 39 then .ok { t with fgColor := DEFAULT_THEME.defaultFg }
  else if 40 ≤ param ∧ param ≤ 47 then do
    let color ← index DEFAULT_THEME.colors (param - 40)
    .ok { t with bgColor := color }
  else if param = 49 then .ok { t with bgColor := DEFAULT_THEME.defaultBg }
  else if 90 ≤ param ∧ param ≤ 97 then do
    let color ← index DEFAULT_THEME.brightColors (param - 90)
    .ok { t with fgColor := color }
  else if 100 ≤ param ∧ param ≤ 107 then do
    let color ← index DEFAULT_THEME.brightColors (param - 100)
    .ok { t with bgColor := color }
  else .ok t

def recvByte (t : Terminal) (c : UInt8) : Res Terminal :=
  match t.ansiState with
  | .ground =>
    -- 0x1B is ESC
    if c = 0x1B then .ok { t with ansiState := .escape } else t.putChar c
  | .escape =>
    -- 0x5B is [
    if c = 0x5B then .ok { t with ansiState := .arg AnsiArgs.default }
    else .ok { t with ansiState := .ground }
  | .arg args =>
    -- the digits, then 0x3B for ; and 0x6D for m
    if 0x30 ≤ c ∧ c ≤ 0x39 then do
      let last ← index args.args (args.count - 1)
      let newVal := last * 10 + (c - 0x30).toUInt64
      let stored ← store args.args (args.count - 1) newVal
      .ok { t with ansiState := .arg { args with args := stored } }
    else if c = 0x3B then
      if args.count < UInt64.ofNat args.args.length then
        .ok { t with ansiState := .arg { args with count := args.count + 1 } }
      else .ok t
    else if c = 0x6D then do
      let params ← slice args.args 0 args.count
      let t ← params.foldlM applyParam t
      .ok { t with ansiState := .ground }
    else .ok t

def recvBytes (t : Terminal) (buf : List UInt8) : Res Terminal := run recvByte t buf

end Terminal

/-- The public calls on a terminal. -/
inductive Call
  | clear
  | scroll (n : UInt64)
  | putChar (c : UInt8)
  | recvByte (c : UInt8)
  | recvBytes (buf : List UInt8)

def call (t : Terminal) : Call → Res Terminal
  | .clear => .ok t.clear
  | .scroll n => .ok (t.scroll n)
  | .putChar c => t.putChar c
  | .recvByte c => t.recvByte c
  | .recvBytes buf => t.recvBytes buf

/-! ### The pixels -/

/-- The framebuffers the terminal is for: one glyph fits, and a row of pixels fits its pitch. -/
structure Usable (fb : LimineFramebuffer) : Prop where
  wide : 8 ≤ fb.width
  high : 10 ≤ fb.height
  pitch : fb.width ≤ fb.pitch / 4

/-- Pixels from one row to the next. -/
def LimineFramebuffer.stride (fb : LimineFramebuffer) : ℕ := fb.pitch.toNat / 4

/-- The slice is that of the framebuffer. -/
structure Framebuffer.Views (f : Framebuffer) (fb : LimineFramebuffer) : Prop where
  width : f.width = fb.width
  height : f.height = fb.height
  pitch : f.pitch = fb.pitch
  length : f.addr.length = fb.stride * fb.height.toNat

/-- The slice stays that of the framebuffer, with the ink on it. -/
structure Draws (fb : LimineFramebuffer) (f f' : Framebuffer) (ink : Ink UInt32) : Prop where
  views : f'.Views fb
  painted : Painted fb.stride f.addr f'.addr ink

variable {fb : LimineFramebuffer} {f f' f'' : Framebuffer} {x y : UInt64}
  {p q : Ink UInt32}

lemma toNat_add {a b : UInt64} (h : a.toNat + b.toNat < 2 ^ 64) :
    (a + b).toNat = a.toNat + b.toNat := by
  rw [UInt64.toNat_add, Nat.mod_eq_of_lt h]

lemma toNat_succ {a : UInt64} (h : a.toNat + 1 < 2 ^ 64) : (a + 1).toNat = a.toNat + 1 :=
  toNat_add h

lemma toNat_mul {a b : UInt64} (h : a.toNat * b.toNat < 2 ^ 64) :
    (a * b).toNat = a.toNat * b.toNat := by
  rw [UInt64.toNat_mul, Nat.mod_eq_of_lt h]

lemma toNat_ofNat {n : ℕ} (h : n < 2 ^ 63) : (UInt64.ofNat n).toNat = n :=
  UInt64.toNat_ofNat_of_lt' (Nat.lt_of_lt_of_le h (by decide))

lemma toNat_stride : (fb.pitch / 4).toNat = fb.stride := UInt64.toNat_div _ _

lemma area_le (fb : LimineFramebuffer) : fb.stride * fb.height.toNat ≤ 2 ^ 62 := by
  have hs : 4 * fb.stride ≤ fb.pitch.toNat := Nat.mul_div_le _ _
  have hm := fb.mapped
  have : 4 * (fb.stride * fb.height.toNat) ≤ fb.pitch.toNat * fb.height.toNat := by
    rw [← Nat.mul_assoc]
    exact Nat.mul_le_mul_right _ hs
  omega

lemma Usable.wide_toNat (h : Usable fb) : 8 ≤ fb.width.toNat := UInt64.le_iff_toNat_le.mp h.wide

lemma Usable.high_toNat (h : Usable fb) : 10 ≤ fb.height.toNat :=
  UInt64.le_iff_toNat_le.mp h.high

lemma Usable.width_le (h : Usable fb) : fb.width.toNat ≤ fb.stride := by
  rw [← toNat_stride]
  exact UInt64.le_iff_toNat_le.mp h.pitch

/-- The cursor may run a glyph past either edge without wrapping around. -/
lemma Usable.sizes_lt (h : Usable fb) : fb.width.toNat < 2 ^ 63 ∧ fb.height.toNat < 2 ^ 63 := by
  have ha := area_le fb
  have hw := h.width_le
  have h8 := h.wide_toNat
  have h10 := h.high_toNat
  have h1 : fb.stride * 10 ≤ fb.stride * fb.height.toNat := Nat.mul_le_mul_left _ h10
  have h2 : 8 * fb.height.toNat ≤ fb.stride * fb.height.toNat :=
    Nat.mul_le_mul_right _ (Nat.le_trans h8 hw)
  omega

lemma views_from (mem : UInt64 → UInt32) (fb : LimineFramebuffer) :
    (Framebuffer.from mem fb).Views fb := by
  refine ⟨rfl, rfl, rfl, ?_⟩
  have ha := area_le fb
  have hm : (fb.pitch / 4 * fb.height).toNat = fb.stride * fb.height.toNat := by
    rw [toNat_mul] <;> rw [toNat_stride]
    omega
  simp [Framebuffer.from, hm]

lemma draws_nothing (h : f.Views fb) : Draws fb f f fun _ _ => none := ⟨h, painted_nothing⟩

lemma Draws.onTop (hp : Draws fb f f' p) (hq : Draws fb f' f'' q) :
    Draws fb f f'' (onTop q p) := ⟨hq.views, hp.painted.onTop hq.painted⟩

lemma putPixel_draws (h : f.Views fb) (hx : x.toNat < fb.stride) (hy : y.toNat < fb.height.toNat)
    {color : UInt32} {c : ℕ → ℕ → UInt32} (hc : c 0 0 = color) :
    ∃ f', f.putPixel x y color = .ok f' ∧
      Draws fb f f' (block x.toNat y.toNat 1 1 c) := by
  have ha := area_le fb
  have hlt := pixel_lt hx hy
  have hi : (y * (f.pitch / 4) + x).toNat = y.toNat * fb.stride + x.toNat := by
    have hm : (y * (f.pitch / 4)).toNat = y.toNat * fb.stride := by
      rw [h.pitch, toNat_mul] <;> rw [toNat_stride]
      omega
    rw [toNat_add] <;> rw [hm]
    omega
  refine ⟨{ f with addr := f.addr.set (y.toNat * fb.stride + x.toNat) color }, ?_, ?_, ?_⟩
  · simp only [Framebuffer.putPixel, store, hi, h.length, if_pos hlt, ok_bind]
  · exact ⟨h.width, h.height, h.pitch, List.length_set.trans h.length⟩
  · exact painted_set hx hc

/-- Pixel `col` of row `row` of a character. -/
def fontBit (c : UInt8) (row col : ℕ) : Bool :=
  (FONT_BITMAP_8X8[c.toNat * 8 + row]?.getD 0).toNat.testBit col

/-- A drawn character: a row of background, the eight rows of the font, a row of background. -/
def glyphPixel (p : Put) (col row : ℕ) : UInt32 :=
  if row = 0 ∨ row = 9 then p.bg else if fontBit p.c (row - 1) col then p.fg else p.bg

/-- What a call puts on the picture: nothing for a character the font does not have. -/
def glyphInk (x y : ℕ) (p : Put) : Ink UInt32 :=
  if p.c < 128 then block x y 8 10 (glyphPixel p) else fun _ _ => none

lemma putColumns_draws (n : ℕ) (hu : Usable fb) (h : f.Views fb)
    (hx : x.toNat + n ≤ fb.width.toNat) (hy : y.toNat < fb.height.toNat)
    (color : UInt64 → UInt32) {c : ℕ → ℕ → UInt32} (hc : ∀ i < n, c i 0 = color (UInt64.ofNat i)) :
    ∃ f', (List.range n).foldlM (fun fb col => Framebuffer.putPixel fb (x + UInt64.ofNat col) y
        (color (UInt64.ofNat col))) f = .ok f' ∧
      Draws fb f f' (block x.toNat y.toNat n 1 c) := by
  induction n with
  | zero =>
    refine ⟨f, rfl, ?_⟩
    rw [block_noColumns]
    exact draws_nothing h
  | succ n ih =>
    obtain ⟨f1, hf1, hd1⟩ := ih (by omega) fun i hi => hc i (Nat.lt_succ_of_lt hi)
    have hs := hu.sizes_lt
    have hw := hu.width_le
    have hn : (UInt64.ofNat n).toNat = n := toNat_ofNat (by omega)
    have hxn : (x + UInt64.ofNat n).toNat = x.toNat + n := by
      rw [toNat_add] <;> rw [hn]
      omega
    obtain ⟨f2, hf2, hd2⟩ := putPixel_draws (c := fun i j => c (n + i) j) hd1.views
      (by omega : (x + UInt64.ofNat n).toNat < fb.stride) hy (hc n (Nat.lt_succ_self n))
    refine ⟨f2, ?_, ?_⟩
    · rw [List.range_succ, List.foldlM_append, hf1]
      simp only [ok_bind, List.foldlM_cons, List.foldlM_nil, hf2]
      rfl
    · rw [hxn] at hd2
      rw [← block_right 1]
      exact hd1.onTop hd2

lemma putRow_draws (hu : Usable fb) (h : f.Views fb) (hx : x.toNat + 8 ≤ fb.width.toNat)
    (hy : y.toNat < fb.height.toNat) (color : UInt64 → UInt32) {c : ℕ → ℕ → UInt32}
    (hc : ∀ i < 8, c i 0 = color (UInt64.ofNat i)) :
    ∃ f', f.putRow x y color = .ok f' ∧ Draws fb f f' (block x.toNat y.toNat 8 1 c) :=
  putColumns_draws 8 hu h hx hy color hc

/-- The bit the code takes from a row of the font. -/
lemma pixelOn_iff {byte : UInt8} {i : ℕ} (hi : i < 8) :
    (byte >>> (UInt64.ofNat i).toUInt8) &&& 1 ≠ 0 ↔ byte.toNat.testBit i = true := by
  have hn : (UInt64.ofNat i).toUInt8.toNat = i := by
    rw [UInt64.toNat_toUInt8, toNat_ofNat (by omega)]
    exact Nat.mod_eq_of_lt (by omega)
  have h1 : ((byte >>> (UInt64.ofNat i).toUInt8) &&& 1).toNat = byte.toNat >>> i % 2 := by
    rw [UInt8.toNat_and, UInt8.toNat_shiftRight, hn, Nat.mod_eq_of_lt hi]
    exact Nat.and_one_is_mod _
  rw [Ne, ← UInt8.toNat_inj, h1, Nat.testBit_eq_decide_div_mod_eq, Nat.shiftRight_eq_div_pow,
    decide_eq_true_iff]
  exact Nat.mod_two_ne_zero

lemma putRows_draws (hu : Usable fb) (hx : x.toNat + 8 ≤ fb.width.toNat) (fg bg : UInt32)
    (rows : List UInt8) (k : ℕ) (h : f.Views fb)
    (hy : y.toNat + k + 1 + rows.length ≤ fb.height.toNat) :
    ∃ f', (rows.zipIdx k).foldlM (fun fb (byte, row) =>
        Framebuffer.putRow fb x (y + UInt64.ofNat row + 1) fun col =>
          let pixelOn := (byte >>> col.toUInt8) &&& 1
          if pixelOn ≠ 0 then fg else bg) f = .ok f' ∧
      Draws fb f f' (block x.toNat (y.toNat + k + 1) 8 rows.length fun i j =>
        if (rows[j]?.getD 0).toNat.testBit i then fg else bg) := by
  induction rows generalizing f k with
  | nil =>
    refine ⟨f, rfl, ?_⟩
    rw [List.length_nil, block_empty]
    exact draws_nothing h
  | cons byte rows ih =>
    rw [List.length_cons] at hy ⊢
    have hs := hu.sizes_lt
    have hyk : (y + UInt64.ofNat k + 1).toNat = y.toNat + k + 1 := by
      have hk : (UInt64.ofNat k).toNat = k := toNat_ofNat (by omega)
      have hyk : (y + UInt64.ofNat k).toNat = y.toNat + k := by
        rw [toNat_add] <;> rw [hk]
        omega
      rw [toNat_succ] <;> rw [hyk]
      omega
    obtain ⟨f1, hf1, hd1⟩ := putRow_draws (f := f) (y := y + UInt64.ofNat k + 1) hu h hx
      (by omega) (fun col =>
        let pixelOn := (byte >>> col.toUInt8) &&& 1
        if pixelOn ≠ 0 then fg else bg)
      (c := fun i j => if (((byte :: rows)[j]?).getD 0).toNat.testBit i then fg else bg)
      fun i hi => (if_congr (pixelOn_iff hi) rfl rfl).symm
    obtain ⟨f2, hf2, hd2⟩ := ih (k + 1) hd1.views (by omega)
    refine ⟨f2, ?_, ?_⟩
    · rw [List.zipIdx_cons, List.foldlM_cons]
      exact bind_ok.mpr ⟨f1, hf1, hf2⟩
    · rw [hyk] at hd1
      rw [Nat.add_comm rows.length 1, ← block_below]
      refine hd1.onTop ?_
      simpa [Nat.add_comm 1, Nat.add_assoc] using hd2

lemma slice_ok {α : Type} {l : List α} {a b : UInt64} (hab : a.toNat ≤ b.toNat)
    (hb : b.toNat ≤ l.length) :
    slice l a b = .ok ((l.drop a.toNat).take (b.toNat - a.toNat)) := by
  rw [slice, if_pos ⟨UInt64.le_iff_toNat_le.mpr hab, hb⟩]

lemma slice_font {c : UInt8} (h : c < 128) :
    slice FONT_BITMAP_8X8 (c.toUInt64 * 8) ((c.toUInt64 + 1) * 8) =
      .ok ((FONT_BITMAP_8X8.drop (c.toNat * 8)).take 8) := by
  have hc : c.toNat < 128 := UInt8.lt_iff_toNat_lt.mp h
  have h1 : (c.toUInt64 * 8).toNat = c.toNat * 8 := by
    rw [toNat_mul] <;> rw [UInt8.toNat_toUInt64]
    · rfl
    · exact Nat.lt_of_lt_of_le (Nat.mul_lt_mul_of_pos_right hc (by decide)) (by decide)
  have h2 : ((c.toUInt64 + 1) * 8).toNat = c.toNat * 8 + 8 := by
    have hs : (c.toUInt64 + 1).toNat = c.toNat + 1 := by
      rw [toNat_succ] <;> rw [UInt8.toNat_toUInt64]
      omega
    rw [toNat_mul] <;> rw [hs]
    · exact Nat.succ_mul _ _
    · exact Nat.lt_of_le_of_lt (Nat.mul_le_mul_right _ hc) (by decide)
  rw [slice_ok, h1, h2, Nat.add_sub_cancel_left]
  · omega
  · rw [length_font]
    omega

/-- The font rows of a glyph are the rows 1 to 8 of what it looks like. -/
lemma block_font {x y : ℕ} (p : Put) :
    (block x y 8 8 fun i j => if
      (((FONT_BITMAP_8X8.drop (p.c.toNat * 8)).take 8)[j]?.getD 0).toNat.testBit i
      then p.fg else p.bg) = block x y 8 8 fun i j => glyphPixel p i (1 + j) := by
  refine block_congr fun i _ j hj => ?_
  have hrow : ¬(1 + j = 0 ∨ 1 + j = 9) := by omega
  rw [List.getElem?_take_of_lt hj, List.getElem?_drop, glyphPixel, if_neg hrow,
    Nat.add_sub_cancel_left]
  rfl

/-- Drawing a glyph inside the picture succeeds, and does what the call says. -/
lemma drawGlyph_draws (hu : Usable fb) (h : f.Views fb) (hx : x.toNat + 8 ≤ fb.width.toNat)
    (hy : y.toNat + 10 ≤ fb.height.toNat) (p : Put) :
    ∃ f', f.drawGlyph x y p.c p.fg p.bg = .ok f' ∧
      Draws fb f f' (glyphInk x.toNat y.toNat p) := by
  unfold Framebuffer.drawGlyph glyphInk
  by_cases hc : p.c < 128
  · rw [if_neg (UInt8.not_le.mpr hc), if_pos hc]
    have hc' : p.c.toNat < 128 := UInt8.lt_iff_toNat_lt.mp hc
    have hs := hu.sizes_lt
    have hlen : ((FONT_BITMAP_8X8.drop (p.c.toNat * 8)).take 8).length = 8 := by
      rw [List.length_take, List.length_drop, length_font]
      omega
    have h9 : (y + 9).toNat = y.toNat + 9 :=
      toNat_add (b := 9) (Nat.lt_of_le_of_lt (Nat.le_of_lt hy) (by omega))
    -- the three parts, from top to bottom
    obtain ⟨f1, hf1, hd1⟩ := putRow_draws (y := y) (c := glyphPixel p) hu h hx (by omega)
      (fun _ => p.bg) fun i _ => rfl
    obtain ⟨f2, hf2, hd2⟩ := putRows_draws (y := y) hu hx p.fg p.bg
      ((FONT_BITMAP_8X8.drop (p.c.toNat * 8)).take 8) 0 hd1.views (by omega)
    obtain ⟨f3, hf3, hd3⟩ := putRow_draws (y := y + 9)
      (c := fun i j => glyphPixel p i (9 + j)) hu hd2.views hx (by omega) (fun _ => p.bg)
      fun i _ => rfl
    refine ⟨f3, ?_, ?_⟩
    · rw [hf1, ok_bind, slice_font hc, ok_bind]
      exact bind_ok.mpr ⟨f2, hf2, hf3⟩
    · rw [hlen, Nat.add_zero, block_font] at hd2
      rw [h9] at hd3
      have hall := (hd1.onTop hd2).onTop hd3
      rw [block_below, block_below] at hall
      exact hall
  · rw [if_pos (UInt8.not_lt.mp hc), if_neg hc]
    exact ⟨f, rfl, draws_nothing h⟩

/-! ### The terminal -/

/-- Between one and eight arguments have been begun, of the eight there is room for. -/
def AnsiState.Ok : AnsiState → Prop
  | .arg a => 1 ≤ a.count ∧ a.count ≤ 8 ∧ a.args.length = 8
  | _ => True

/-- A glyph at the cursor is inside the picture. -/
structure InBounds (fb : LimineFramebuffer) (t : Terminal) : Prop where
  views : t.framebuffer.Views fb
  cursorX : t.cursorX.toNat + 8 ≤ fb.width.toNat
  cursorY : t.cursorY.toNat + 10 ≤ fb.height.toNat
  ansi : t.ansiState.Ok

variable {t t' : Terminal}

lemma inBounds_new (mem : UInt64 → UInt32) (hu : Usable fb) :
    InBounds fb (Terminal.new mem fb) :=
  ⟨views_from mem fb, by simpa [Terminal.new] using hu.wide_toNat,
    by simpa [Terminal.new] using hu.high_toNat, trivial⟩

lemma clear_views (h : t.framebuffer.Views fb) : t.clear.framebuffer.Views fb :=
  ⟨h.width, h.height, h.pitch, List.length_replicate.trans h.length⟩

lemma clear_inBounds (hu : Usable fb) (hv : t.framebuffer.Views fb) (ha : t.ansiState.Ok) :
    InBounds fb t.clear :=
  ⟨clear_views hv, by simpa [Terminal.clear] using hu.wide_toNat,
    by simpa [Terminal.clear] using hu.high_toNat, ha⟩

lemma cursorY_next (hu : Usable fb) (hy : t.cursorY.toNat + 10 ≤ fb.height.toNat) :
    (t.cursorY + 10).toNat = t.cursorY.toNat + 10 :=
  toNat_add (b := 10) (Nat.lt_of_le_of_lt hy (Nat.lt_trans hu.sizes_lt.2 (by decide)))

lemma cursorX_next (hu : Usable fb) (hx : t.cursorX.toNat + 8 ≤ fb.width.toNat) :
    (t.cursorX + 8).toNat = t.cursorX.toNat + 8 :=
  toNat_add (b := 8) (Nat.lt_of_le_of_lt hx (Nat.lt_trans hu.sizes_lt.1 (by decide)))

/-- The end of a line: the next row, or a clear where there is none. -/
lemma lineFeed_eq (hu : Usable fb) (hv : t.framebuffer.Views fb)
    (hy : t.cursorY.toNat + 10 ≤ fb.height.toNat) :
    t.lineFeed = if fb.height.toNat < t.cursorY.toNat + 20 then t.clear
      else { t with cursorX := 0, cursorY := t.cursorY + 10 } := by
  have hs := hu.sizes_lt
  have h20 : (t.cursorY + 10 + 10).toNat = t.cursorY.toNat + 20 := by
    rw [toNat_add (b := 10)] <;> rw [cursorY_next hu hy]
    · rfl
    · exact Nat.lt_of_le_of_lt (Nat.add_le_add_right hy 10) (by omega)
  unfold Terminal.lineFeed
  simp only [UInt64.lt_iff_toNat_lt, hv.height, h20]
  rfl

lemma lineFeed_inBounds (hu : Usable fb) (hv : t.framebuffer.Views fb)
    (hy : t.cursorY.toNat + 10 ≤ fb.height.toNat) (ha : t.ansiState.Ok) :
    InBounds fb t.lineFeed := by
  rw [lineFeed_eq hu hv hy]
  split
  · exact clear_inBounds hu hv ha
  · refine ⟨hv, by simpa using hu.wide_toNat, ?_, ha⟩
    simp only [cursorY_next hu hy]
    omega

/-- The terminal with a call of `putChar` recorded. -/
def record (t : Terminal) (c : UInt8) : Terminal :=
  { t with puts := ⟨c, t.fgColor, t.bgColor⟩ :: t.puts }

lemma putChar_newline (t : Terminal) : t.putChar 0x0A = .ok (record t 0x0A).lineFeed := rfl

/-- A character is drawn at the cursor, and the cursor goes to the next column or row. -/
lemma putChar_glyph (hu : Usable fb) (h : InBounds fb t) {c : UInt8} (hc : c ≠ 0x0A) :
    ∃ f, Draws fb t.framebuffer f
        (glyphInk t.cursorX.toNat t.cursorY.toNat ⟨c, t.fgColor, t.bgColor⟩) ∧
      t.putChar c = .ok (
        if fb.width.toNat < t.cursorX.toNat + 16 then
          { record t c with framebuffer := f, cursorX := t.cursorX + 8 }.lineFeed
        else { record t c with framebuffer := f, cursorX := t.cursorX + 8 }) := by
  have hs := hu.sizes_lt
  obtain ⟨f, hf, hd⟩ := drawGlyph_draws hu h.views h.cursorX h.cursorY
    ⟨c, t.fgColor, t.bgColor⟩
  have h16 : (t.cursorX + 8 + 8).toNat = t.cursorX.toNat + 16 := by
    rw [toNat_add (b := 8)] <;> rw [cursorX_next hu h.cursorX]
    · rfl
    · exact Nat.lt_of_le_of_lt (Nat.add_le_add_right h.cursorX 8) (by omega)
  refine ⟨f, hd, ?_⟩
  rw [Terminal.putChar, if_neg hc]
  refine bind_ok.mpr ⟨f, hf, ?_⟩
  simp only [UInt64.lt_iff_toNat_lt, hd.views.width, h16]
  rfl

lemma putChar_inBounds (hu : Usable fb) (h : InBounds fb t) (c : UInt8) :
    ∃ t', t.putChar c = .ok t' ∧ InBounds fb t' := by
  by_cases hc : c = 0x0A
  · subst hc
    exact ⟨_, putChar_newline t, lineFeed_inBounds hu h.views h.cursorY h.ansi⟩
  · obtain ⟨f, hd, hp⟩ := putChar_glyph hu h hc
    refine ⟨_, hp, ?_⟩
    split
    · exact lineFeed_inBounds hu hd.views h.cursorY h.ansi
    · refine ⟨hd.views, ?_, h.cursorY, h.ansi⟩
      simp only [cursorX_next hu h.cursorX]
      omega

lemma index_ok {α : Type} {l : List α} {i : UInt64} (h : i.toNat < l.length) :
    ∃ a, index l i = .ok a := by
  rw [index, List.getElem?_eq_getElem h]
  exact ⟨_, rfl⟩

lemma store_ok {α : Type} {l : List α} {i : UInt64} (h : i.toNat < l.length) (a : α) :
    store l i a = .ok (l.set i.toNat a) := if_pos h

/-- A colour of a table of eight, chosen by an argument between `lo` and `lo + 7`. -/
lemma color_ok {l : List UInt32} {param lo hi : UInt64} (h : lo ≤ param ∧ param ≤ hi)
    (hl : l.length = 8) (hhi : hi.toNat = lo.toNat + 7) : ∃ a, index l (param - lo) = .ok a := by
  have h1 := UInt64.le_iff_toNat_le.mp h.1
  have h2 := UInt64.le_iff_toNat_le.mp h.2
  refine index_ok ?_
  rw [UInt64.toNat_sub_of_le _ _ h.1]
  omega

lemma colored_ite {p : Prop} [Decidable p] {t : Terminal} {x y : Res Terminal}
    (hx : p → ∃ fg bg, x = .ok { t with fgColor := fg, bgColor := bg })
    (hy : ∃ fg bg, y = .ok { t with fgColor := fg, bgColor := bg }) :
    ∃ fg bg, (if p then x else y) = .ok { t with fgColor := fg, bgColor := bg } := by
  by_cases hp : p
  · rw [if_pos hp]
    exact hx hp
  · rw [if_neg hp]
    exact hy

/-- An argument sets colours and nothing else. -/
lemma applyParam_ok (t : Terminal) (param : UInt64) :
    ∃ fg bg, t.applyParam param = .ok { t with fgColor := fg, bgColor := bg } := by
  refine colored_ite (fun _ => ⟨_, _, rfl⟩) ?_
  refine colored_ite (fun h => ?_) ?_
  · obtain ⟨a, ha⟩ := color_ok (l := DEFAULT_THEME.colors) h rfl rfl
    exact ⟨a, t.bgColor, by rw [ha]; rfl⟩
  refine colored_ite (fun _ => ⟨_, t.bgColor, rfl⟩) ?_
  refine colored_ite (fun h => ?_) ?_
  · obtain ⟨a, ha⟩ := color_ok (l := DEFAULT_THEME.colors) h rfl rfl
    exact ⟨t.fgColor, a, by rw [ha]; rfl⟩
  refine colored_ite (fun _ => ⟨t.fgColor, _, rfl⟩) ?_
  refine colored_ite (fun h => ?_) ?_
  · obtain ⟨a, ha⟩ := color_ok (l := DEFAULT_THEME.brightColors) h rfl rfl
    exact ⟨a, t.bgColor, by rw [ha]; rfl⟩
  refine colored_ite (fun h => ?_) ⟨t.fgColor, t.bgColor, rfl⟩
  obtain ⟨a, ha⟩ := color_ok (l := DEFAULT_THEME.brightColors) h rfl rfl
  exact ⟨t.fgColor, a, by rw [ha]; rfl⟩

lemma applyParams_ok (params : List UInt64) (t : Terminal) :
    ∃ fg bg, params.foldlM Terminal.applyParam t =
      .ok { t with fgColor := fg, bgColor := bg } := by
  induction params generalizing t with
  | nil => exact ⟨t.fgColor, t.bgColor, rfl⟩
  | cons param params ih =>
    obtain ⟨fg1, bg1, h1⟩ := applyParam_ok t param
    obtain ⟨fg, bg, h⟩ := ih { t with fgColor := fg1, bgColor := bg1 }
    refine ⟨fg, bg, ?_⟩
    rw [List.foldlM_cons, h1, ok_bind]
    exact h

section Args

variable {a : AnsiArgs}

/-- The argument being read is in the array. -/
lemma last_lt (h : (AnsiState.arg a).Ok) : (a.count - 1).toNat < a.args.length := by
  obtain ⟨h1, h8, hlen⟩ := h
  have hn1 : 1 ≤ a.count.toNat := UInt64.le_iff_toNat_le.mp h1
  have hn8 : a.count.toNat ≤ 8 := UInt64.le_iff_toNat_le.mp h8
  rw [UInt64.toNat_sub_of_le _ _ h1, hlen]
  exact Nat.lt_of_lt_of_le (Nat.sub_lt hn1 Nat.one_pos) hn8

lemma ok_nextArg (h : (AnsiState.arg a).Ok) (hlt : a.count < UInt64.ofNat a.args.length) :
    (AnsiState.arg { a with count := a.count + 1 }).Ok := by
  obtain ⟨-, -, hlen⟩ := h
  rw [hlen] at hlt
  have hn : a.count.toNat < 8 := UInt64.lt_iff_toNat_lt.mp hlt
  have hs : (a.count + 1).toNat = a.count.toNat + 1 := toNat_succ (by omega)
  refine ⟨?_, ?_, hlen⟩
  · rw [UInt64.le_iff_toNat_le, hs]
    exact Nat.le_add_left _ _
  · rw [UInt64.le_iff_toNat_le, hs]
    exact hn

/-- A byte that comes while arguments are read may set colours. -/
lemma recvByte_arg (ha : t.ansiState = .arg a) (h : (AnsiState.arg a).Ok) (c : UInt8) :
    ∃ fg bg st, AnsiState.Ok st ∧
      t.recvByte c = .ok { t with fgColor := fg, bgColor := bg, ansiState := st } := by
  have hstay : AnsiState.Ok t.ansiState := by
    rw [ha]
    exact h
  unfold Terminal.recvByte
  simp only [ha]
  split
  · -- a digit
    obtain ⟨last, hi⟩ := index_ok (last_lt h)
    have hset := store_ok (last_lt h) (last * 10 + (c - 0x30).toUInt64)
    obtain ⟨h1, h8, hlen⟩ := h
    refine ⟨t.fgColor, t.bgColor, .arg { a with
      args := a.args.set (a.count - 1).toNat (last * 10 + (c - 0x30).toUInt64) },
      ⟨h1, h8, List.length_set.trans hlen⟩, ?_⟩
    rw [hi, ok_bind, hset]
    rfl
  split
  · -- the next argument, if there is room for it
    split
    · next hlt =>
      exact ⟨t.fgColor, t.bgColor, .arg { a with count := a.count + 1 }, ok_nextArg h hlt, rfl⟩
    · exact ⟨t.fgColor, t.bgColor, t.ansiState, hstay, rfl⟩
  split
  · -- the end of the sequence
    obtain ⟨-, h8, hlen⟩ := h
    have hslice : slice a.args 0 a.count = .ok (a.args.take a.count.toNat) :=
      slice_ok (Nat.zero_le _) (hlen ▸ UInt64.le_iff_toNat_le.mp h8)
    obtain ⟨fg, bg, hp⟩ := applyParams_ok (a.args.take a.count.toNat) t
    refine ⟨fg, bg, .ground, trivial, ?_⟩
    rw [hslice, ok_bind, hp]
    rfl
  · exact ⟨t.fgColor, t.bgColor, t.ansiState, hstay, rfl⟩

end Args

/-- A byte is a call of `putChar`, or part of an escape sequence, which may set colours. -/
lemma recvByte_cases (ha : t.ansiState.Ok) (c : UInt8) :
    t.recvByte c = t.putChar c ∨ ∃ fg bg st, AnsiState.Ok st ∧
      t.recvByte c = .ok { t with fgColor := fg, bgColor := bg, ansiState := st } := by
  rcases hst : t.ansiState with _ | _ | a
  · unfold Terminal.recvByte
    by_cases hc : c = 0x1B
    · exact .inr ⟨t.fgColor, t.bgColor, .escape, trivial, by simp only [hst, if_pos hc]⟩
    · exact .inl (by simp only [hst, if_neg hc])
  · right
    unfold Terminal.recvByte
    by_cases hc : c = 0x5B
    · have hok : (AnsiState.arg AnsiArgs.default).Ok := ⟨by decide, by decide, rfl⟩
      exact ⟨t.fgColor, t.bgColor, _, hok, by simp only [hst, if_pos hc]⟩
    · exact ⟨t.fgColor, t.bgColor, .ground, trivial, by simp only [hst, if_neg hc]⟩
  · rw [hst] at ha
    exact .inr (recvByte_arg hst ha c)

/-- What a clear, a call of `putChar` and a change of colours and state keep, every call keeps,
and it succeeds. -/
lemma call_keeps {I : Terminal → Prop} (hok : ∀ t, I t → t.ansiState.Ok)
    (hclear : ∀ t, I t → I t.clear)
    (hput : ∀ t c, I t → ∃ t', t.putChar c = .ok t' ∧ I t')
    (hesc : ∀ t fg bg st, I t → AnsiState.Ok st →
      I { t with fgColor := fg, bgColor := bg, ansiState := st })
    (t : Terminal) (a : Call) (h : I t) : ∃ t', call t a = .ok t' ∧ I t' := by
  have hrecv : ∀ t c, I t → ∃ t', t.recvByte c = .ok t' ∧ I t' := by
    intro t c ht
    rcases recvByte_cases (hok t ht) c with hp | ⟨fg, bg, st, hst, hr⟩
    · rw [hp]
      exact hput t c ht
    · exact ⟨_, hr, hesc t fg bg st ht hst⟩
  cases a with
  | clear => exact ⟨_, rfl, hclear t h⟩
  | scroll n => exact ⟨_, rfl, hclear t h⟩
  | putChar c => exact hput t c h
  | recvByte c => exact hrecv t c h
  | recvBytes buf => exact run_succeeds hrecv h buf

lemma call_inBounds (hu : Usable fb) (t : Terminal) (a : Call) (h : InBounds fb t) :
    ∃ t', call t a = .ok t' ∧ InBounds fb t' :=
  call_keeps (fun _ ht => ht.ansi) (fun _ ht => clear_inBounds hu ht.views ht.ansi)
    (fun _ c ht => putChar_inBounds hu ht c)
    (fun _ _ _ _ ht hst => ⟨ht.views, ht.cursorX, ht.cursorY, hst⟩) t a h

/-- **The terminal stays in bounds.** Whatever calls are made and whatever bytes are sent, no
call indexes out of bounds, and in every state reached a glyph at the cursor is inside the
picture and one to eight arguments have been begun. -/
theorem terminal_in_bounds (mem : UInt64 → UInt32) (fb : LimineFramebuffer) (hu : Usable fb)
    (calls : List Call) :
    ∃ t, run call (Terminal.new mem fb) calls = .ok t ∧ InBounds fb t :=
  run_succeeds (call_inBounds hu) (inBounds_new mem hu) calls

lemma small_mapped : (0 : UInt64).toNat + (32 : UInt64).toNat * (10 : UInt64).toNat ≤ 2 ^ 64 := by
  decide

/-- A framebuffer of one glyph. -/
def small : LimineFramebuffer := ⟨0, 8, 10, 32, small_mapped⟩

lemma small_usable : Usable small := ⟨by decide, by decide, by decide⟩

-- a letter, a newline, a red letter, and a sequence of nine arguments
theorem terminal_in_bounds_small :
    ∃ t, run call (Terminal.new (fun _ => 0) small)
        [.clear, .recvBytes [0x41, 0x0A], .recvBytes [0x1B, 0x5B, 0x33, 0x31, 0x6D, 0x42],
          .recvBytes [0x1B, 0x5B, 0x3B, 0x3B, 0x3B, 0x3B, 0x3B, 0x3B, 0x3B, 0x3B, 0x39]] =
          .ok t ∧ InBounds small t :=
  terminal_in_bounds _ small small_usable _

end OsRust.Console
