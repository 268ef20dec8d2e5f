import OsRust.Console
import Mathlib.Data.Nat.Digits.Defs

/-!
Escape sequences read as a text: strings of digits between separators, and what the number of
each does to the colours.
-/

namespace OsRust.Sgr

open OsRust.Console OsRust.Lib.Machine

abbrev Digits := List (Fin 10)

/-- The number in decimal, zero where there is no digit. -/
def value (d : Digits) : ℕ := Nat.ofDigits 10 (d.reverse.map Fin.val)

def digitByte (i : Fin 10) : UInt8 := 0x30 + UInt8.ofNat i.val

def IsDigit (c : UInt8) : Prop := 0x30 ≤ c ∧ c ≤ 0x39

instance (c : UInt8) : Decidable (IsDigit c) := inferInstanceAs (Decidable (_ ∧ _))

def digitOf (c : UInt8) : Fin 10 := Fin.ofNat 10 (c - 0x30).toNat

/-- `ESC [ d1 ; … ; dn m` -/
def sequence (ds : List Digits) : List UInt8 :=
  [0x1B, 0x5B] ++ [0x3B].intercalate (ds.map fun d => d.map digitByte) ++ [0x6D]

structure Colors where
  fg : UInt32
  bg : UInt32

/-- The colour table: what a code does to the colours. -/
def sgr (c : Colors) (code : ℕ) : Colors :=
  if code = 0 then ⟨DEFAULT_THEME.defaultFg, DEFAULT_THEME.defaultBg⟩
  else if 30 ≤ code ∧ code ≤ 37 then
    { c with fg := DEFAULT_THEME.colors[code - 30]?.getD c.fg }
  else if code = 39 then { c with fg := DEFAULT_THEME.defaultFg }
  else if 40 ≤ code ∧ code ≤ 47 then
    { c with bg := DEFAULT_THEME.colors[code - 40]?.getD c.bg }
  else if code = 49 then { c with bg := DEFAULT_THEME.defaultBg }
  else if 90 ≤ code ∧ code ≤ 97 then
    { c with fg := DEFAULT_THEME.brightColors[code - 90]?.getD c.fg }
  else if 100 ≤ code ∧ code ≤ 107 then
    { c with bg := DEFAULT_THEME.brightColors[code - 100]?.getD c.bg }
  else c

def colors (t : Terminal) : Colors := ⟨t.fgColor, t.bgColor⟩

def recolor (t : Terminal) (c : Colors) : Terminal :=
  { t with fgColor := c.fg, bgColor := c.bg }

def inState (t : Terminal) (st : AnsiState) : Terminal := { t with ansiState := st }

/-- The arguments of the parser there, the numbers as far as 64 bits hold them. -/
def argsOf (closed : List Digits) (last : Digits) : AnsiArgs where
  count := UInt64.ofNat (closed.length + 1)
  args := closed.map (fun d => UInt64.ofNat (value d)) ++
    UInt64.ofNat (value last) :: List.replicate (7 - closed.length) 0

/-- How far a stream has been read: inside a sequence, the arguments that are closed and the
digits of the last, of the eight there is room for. -/
inductive Reading
  | ground
  | escape
  | arg (closed : List Digits) (last : Digits) (room : closed.length < 8)

namespace Reading

lemma room_nil : ([] : List Digits).length < 8 := by decide

/-- Nothing is read of a sequence but its first two bytes. -/
def start : Reading := .arg [] [] room_nil

/-- A separator past the eighth argument is dropped, so that its digits go on. -/
def step : Reading → UInt8 → Reading
  | .ground, c => if c = 0x1B then .escape else .ground
  | .escape, c => if c = 0x5B then .start else .ground
  | .arg closed last room, c =>
    if IsDigit c then .arg closed (last ++ [digitOf c]) room
    else if c = 0x3B then
      if h : (closed ++ [last]).length < 8 then .arg (closed ++ [last]) [] h
      else .arg closed last room
    else if c = 0x6D then .ground
    else .arg closed last room

/-- The strings of digits of the arguments. -/
def strings : Reading → List Digits
  | .arg closed last _ => closed ++ [last]
  | _ => []

def state : Reading → AnsiState
  | .ground => .ground
  | .escape => .escape
  | .arg closed last _ => .arg (argsOf closed last)

end Reading

/-! ### Numbers and colours -/

variable {d e : Digits} {i : Fin 10} {c : UInt8}

lemma value_append (d e : Digits) : value (d ++ e) = value d * 10 ^ e.length + value e := by
  simp only [value, List.reverse_append, List.map_append, Nat.ofDigits_append, List.length_map,
    List.length_reverse]
  ring

lemma value_snoc (d : Digits) (i : Fin 10) : value (d ++ [i]) = value d * 10 + i := by
  have hi : value [i] = i := by simp [value]
  rw [value_append, hi, List.length_singleton, Nat.pow_one]

lemma isDigit_digitByte (i : Fin 10) : IsDigit (digitByte i) := by
  revert i
  decide

lemma digitOf_digitByte (i : Fin 10) : digitOf (digitByte i) = i := by
  revert i
  decide

lemma digitOf_val (h : IsDigit c) : (digitOf c).val = (c - 0x30).toNat := by
  have h1 := UInt8.le_iff_toNat_le.mp h.1
  have h2 := UInt8.le_iff_toNat_le.mp h.2
  refine Nat.mod_eq_of_lt ?_
  rw [UInt8.toNat_sub_of_le _ _ h.1]
  have : (0x39 : UInt8).toNat = 57 := rfl
  have : (0x30 : UInt8).toNat = 48 := rfl
  omega

lemma index_sub {l : List UInt32} {param lo : UInt64} (hlo : lo ≤ param)
    (hl : param.toNat - lo.toNat < l.length) (color : UInt32) :
    index l (param - lo) = .ok (l[param.toNat - lo.toNat]?.getD color) := by
  rw [index, UInt64.toNat_sub_of_le _ _ hlo, List.getElem?_eq_getElem hl]
  rfl

/-- One more row of the colour table. -/
lemma recolor_ite {p q : Prop} [Decidable p] [Decidable q] {t : Terminal} {x y : Res Terminal}
    {c d : Colors} (hpq : p ↔ q) (hx : q → x = .ok (recolor t c)) (hy : y = .ok (recolor t d)) :
    (if p then x else y) = .ok (recolor t (if q then c else d)) := by
  by_cases hq : q
  · rw [if_pos (hpq.mpr hq), if_pos hq, hx hq]
  · rw [if_neg (mt hpq.mp hq), if_neg hq, hy]

lemma applyParam_eq (t : Terminal) (param : UInt64) :
    t.applyParam param = .ok (recolor t (sgr (colors t) param.toNat)) := by
  have heq (k : UInt64) : param = k ↔ param.toNat = k.toNat := UInt64.toNat_inj.symm
  have hrange (lo hi : UInt64) : lo ≤ param ∧ param ≤ hi ↔
      lo.toNat ≤ param.toNat ∧ param.toNat ≤ hi.toNat := by
    rw [UInt64.le_iff_toNat_le, UInt64.le_iff_toNat_le]
  have hindex {l : List UInt32} (lo hi : UInt64) (color : UInt32)
      (h : lo.toNat ≤ param.toNat ∧ param.toNat ≤ hi.toNat) (hl : hi.toNat - lo.toNat < l.length) :
      index l (param - lo) = .ok (l[param.toNat - lo.toNat]?.getD color) :=
    index_sub (UInt64.le_iff_toNat_le.mpr h.1) (by omega) color
  refine recolor_ite (heq 0) (fun _ => rfl) ?_
  refine recolor_ite (hrange 30 37) (fun h => ?_) ?_
  · rw [hindex 30 37 t.fgColor h (by decide)]
    rfl
  refine recolor_ite (heq 39) (fun _ => rfl) ?_
  refine recolor_ite (hrange 40 47) (fun h => ?_) ?_
  · rw [hindex 40 47 t.bgColor h (by decide)]
    rfl
  refine recolor_ite (heq 49) (fun _ => rfl) ?_
  refine recolor_ite (hrange 90 97) (fun h => ?_) ?_
  · rw [hindex 90 97 t.fgColor h (by decide)]
    rfl
  refine recolor_ite (hrange 100 107) (fun h => ?_) rfl
  rw [hindex 100 107 t.bgColor h (by decide)]
  rfl

lemma applyParams_eq (params : List UInt64) (t : Terminal) :
    params.foldlM Terminal.applyParam t =
      .ok (recolor t ((params.map UInt64.toNat).foldl sgr (colors t))) := by
  induction params generalizing t with
  | nil => rfl
  | cons param params ih =>
    rw [List.foldlM_cons, applyParam_eq, ok_bind, ih]
    rfl

/-! ### The parser reads the stream -/

section Arg

variable {t : Terminal} {closed : List Digits} {last : Digits} {room : closed.length < 8}

lemma recvByte_0x3B {a : AnsiArgs} (h : t.ansiState = .arg a) :
    t.recvByte 0x3B = if a.count < UInt64.ofNat a.args.length then
      .ok (inState t (.arg { a with count := a.count + 1 })) else .ok t := by
  unfold Terminal.recvByte
  rw [h]
  rfl

lemma recvByte_0x6D {a : AnsiArgs} (h : t.ansiState = .arg a) :
    t.recvByte 0x6D = (do
      let params ← slice a.args 0 a.count
      let t ← params.foldlM Terminal.applyParam t
      .ok (inState t .ground)) := by
  unfold Terminal.recvByte
  rw [h]
  rfl

lemma toNat_count (room : closed.length < 8) :
    (UInt64.ofNat (closed.length + 1)).toNat = closed.length + 1 := toNat_ofNat (by omega)

lemma toNat_last (room : closed.length < 8) :
    ((argsOf closed last).count - 1).toNat = closed.length := by
  have h1 : (1 : UInt64) ≤ UInt64.ofNat (closed.length + 1) := by
    rw [UInt64.le_iff_toNat_le, toNat_count room]
    exact Nat.le_add_left _ _
  rw [argsOf, UInt64.toNat_sub_of_le _ _ h1, toNat_count room]
  rfl

lemma index_last (room : closed.length < 8) :
    index (argsOf closed last).args ((argsOf closed last).count - 1) =
      .ok (UInt64.ofNat (value last)) := by
  rw [index, toNat_last room]
  simp [argsOf]

lemma store_last (room : closed.length < 8) (v : UInt64) :
    store (argsOf closed last).args ((argsOf closed last).count - 1) v =
      .ok (closed.map (fun d => UInt64.ofNat (value d)) ++
        v :: List.replicate (7 - closed.length) 0) := by
  rw [store, toNat_last room]
  simp [argsOf]

lemma args_length (room : closed.length < 8) : (argsOf closed last).args.length = 8 := by
  simp [argsOf]
  omega

/-- The next argument is begun where the array holds a zero. -/
lemma argsOf_next (room : (closed ++ [last]).length < 8) :
    { argsOf closed last with count := (argsOf closed last).count + 1 } =
      argsOf (closed ++ [last]) [] := by
  have hlen : (closed ++ [last]).length = closed.length + 1 := List.length_append
  have hrep : List.replicate (7 - closed.length) (0 : UInt64) =
      0 :: List.replicate (7 - (closed ++ [last]).length) 0 := by
    rw [hlen, ← List.replicate_succ]
    congr 1
    omega
  unfold argsOf
  rw [hrep, hlen, UInt64.ofNat_add (closed.length + 1) 1, List.map_append, List.append_assoc]
  rfl

lemma recvByte_digit (h : t.ansiState = (Reading.arg closed last room).state) (hc : IsDigit c) :
    t.recvByte c =
      .ok (inState t (Reading.arg closed (last ++ [digitOf c]) room).state) := by
  have hnum : UInt64.ofNat (value last) * 10 + (c - 0x30).toUInt64 =
      UInt64.ofNat (value (last ++ [digitOf c])) := by
    rw [value_snoc, digitOf_val hc, UInt64.ofNat_add, UInt64.ofNat_mul,
      UInt64.ofNat_uInt8ToNat]
    rfl
  unfold Terminal.recvByte
  simp only [h, Reading.state]
  rw [if_pos (show 0x30 ≤ c ∧ c ≤ 0x39 from hc), index_last room, ok_bind, store_last room,
    ok_bind, hnum]
  rfl

lemma recvByte_separator (h : t.ansiState = (Reading.arg closed last room).state) :
    t.recvByte 0x3B =
      .ok (inState t ((Reading.arg closed last room).step 0x3B).state) := by
  have hlt : (argsOf closed last).count < UInt64.ofNat (argsOf closed last).args.length ↔
      (closed ++ [last]).length < 8 := by
    rw [args_length room, UInt64.lt_iff_toNat_lt, List.length_append]
    exact (toNat_count room).symm ▸ Iff.rfl
  rw [recvByte_0x3B h]
  simp only [hlt, Reading.step, if_neg (show ¬IsDigit 0x3B by decide), if_true]
  split
  · next hr =>
    rw [argsOf_next hr]
    rfl
  · exact congrArg Except.ok (congrArg (inState t) h)

lemma recvByte_final (room : closed.length < 8)
    (h : t.ansiState = (Reading.arg closed last room).state) :
    t.recvByte 0x6D = .ok (inState (recolor t
      (((closed ++ [last]).map fun d => value d % 2 ^ 64).foldl sgr (colors t))) .ground) := by
  have hslice : slice (argsOf closed last).args 0 (argsOf closed last).count =
      .ok ((closed ++ [last]).map fun d => UInt64.ofNat (value d)) := by
    rw [slice_ok (Nat.zero_le _) (by rw [args_length room]; exact (toNat_count room).symm ▸ room)]
    rw [argsOf, toNat_count room]
    simp [List.take_append, List.take_of_length_le]
  have hnum : ((closed ++ [last]).map fun d => UInt64.ofNat (value d)).map UInt64.toNat =
      (closed ++ [last]).map fun d => value d % 2 ^ 64 := by
    rw [List.map_map]
    exact List.map_congr_left fun d _ => UInt64.toNat_ofNat'
  rw [recvByte_0x6D h, hslice, ok_bind, applyParams_eq, ok_bind, hnum]

/-- Before its `m` a sequence only changes what the parser has read. -/
lemma recvByte_arg (h : t.ansiState = (Reading.arg closed last room).state) (hc : c ≠ 0x6D) :
    t.recvByte c =
      .ok (inState t ((Reading.arg closed last room).step c).state) := by
  by_cases hd : IsDigit c
  · rw [recvByte_digit h hd, Reading.step, if_pos hd]
  by_cases hs : c = 0x3B
  · subst hs
    exact recvByte_separator h
  · unfold Terminal.recvByte
    simp only [h, Reading.state]
    rw [if_neg (show ¬(0x30 ≤ c ∧ c ≤ 0x39) from hd), if_neg hs, if_neg hc, Reading.step,
      if_neg hd, if_neg hs, if_neg hc]
    exact congrArg Except.ok (congrArg (inState t) h)

lemma step_arg (room : closed.length < 8) (last : Digits) (hc : c ≠ 0x6D) :
    ∃ closed' last' room', (Reading.arg closed last room).step c = .arg closed' last' room' := by
  simp only [Reading.step, if_neg hc]
  split_ifs
  all_goals exact ⟨_, _, ‹_›, rfl⟩

/-- The bytes of a sequence up to its `m` are read and nothing else happens. -/
lemma recvBytes_arg (room : closed.length < 8)
    (h : t.ansiState = (Reading.arg closed last room).state) {w : List UInt8}
    (hw : 0x6D ∉ w) : ∃ closed' last' room',
      w.foldl Reading.step (.arg closed last room) = .arg closed' last' room' ∧
      t.recvBytes w = .ok (inState t (Reading.arg closed' last' room').state) := by
  induction w generalizing t closed last with
  | nil => exact ⟨closed, last, room, rfl, by rw [← h]; rfl⟩
  | cons c w ih =>
    obtain ⟨hc, hw⟩ := not_or.mp (mt List.mem_cons.mpr hw)
    obtain ⟨cl, la, ro, hs⟩ := step_arg room last (Ne.symm hc)
    have hr := recvByte_arg h (Ne.symm hc)
    rw [hs] at hr
    obtain ⟨closed', last', room', hrun, hread⟩ :=
      ih (t := inState t (Reading.arg cl la ro).state) ro rfl hw
    refine ⟨closed', last', room', ?_, run_cons_ok.mpr ⟨_, hr, hread⟩⟩
    rw [List.foldl_cons, hs, hrun]

end Arg

/-! ### Whole sequences -/

section Sequence

variable {t : Terminal} {closed : List Digits} {last : Digits} {ds : List Digits}

lemma run_digits (room : closed.length < 8) (last d : Digits) :
    (d.map digitByte).foldl Reading.step (.arg closed last room) =
      .arg closed (last ++ d) room := by
  induction d generalizing last with
  | nil => simp
  | cons i d ih =>
    rw [List.map_cons, List.foldl_cons, Reading.step, if_pos (isDigit_digitByte i),
      digitOf_digitByte, ih, List.append_assoc, List.singleton_append]

/-- What follows the first argument. -/
def rest (ds : List Digits) : List UInt8 := ds.flatMap fun d => 0x3B :: d.map digitByte

lemma sequence_cons (d : Digits) (ds : List Digits) :
    sequence (d :: ds) = [0x1B, 0x5B] ++ (d.map digitByte ++ rest ds) ++ [0x6D] := by
  have hjoin : [0x3B].intercalate ((d :: ds).map fun d => d.map digitByte) =
      d.map digitByte ++ rest ds := by
    induction ds generalizing d with
    | nil => simp [rest]
    | cons e ds ih =>
      rw [List.map_cons, List.map_cons, List.intercalate_cons_cons, ← List.map_cons, ih]
      simp [rest]
  rw [sequence, hjoin]

lemma m_not_mem (d : Digits) (ds : List Digits) : 0x6D ∉ d.map digitByte ++ rest ds := by
  have hd (i : Fin 10) : digitByte i ≠ 0x6D := by
    revert i
    decide
  simp [rest, hd]

lemma step_separator (room : closed.length < 8) (hlen : (closed ++ [last]).length < 8) :
    (Reading.arg closed last room).step 0x3B = .arg (closed ++ [last]) [] hlen := by
  rw [Reading.step, if_neg (by decide), if_pos rfl, dif_pos hlen]

lemma step_surplus (room : closed.length < 8) (hlen : closed.length = 7) :
    (Reading.arg closed last room).step 0x3B = .arg closed last room := by
  have hfull : ¬(closed ++ [last]).length < 8 := by simp [hlen]
  rw [Reading.step, if_neg (by decide), if_pos rfl, dif_neg hfull]

lemma rest_cons (d : Digits) (ds : List Digits) :
    rest (d :: ds) = 0x3B :: (d.map digitByte ++ rest ds) := rfl

/-- Where there is room every argument is read as it is written. -/
lemma run_rest (room : closed.length < 8) (hlen : closed.length + 1 + ds.length ≤ 8) :
    ((rest ds).foldl Reading.step (.arg closed last room)).strings = closed ++ last :: ds := by
  induction ds generalizing closed last with
  | nil => rfl
  | cons d ds ih =>
    have hc : (closed ++ [last]).length = closed.length + 1 := List.length_append
    rw [List.length_cons] at hlen
    rw [rest_cons, List.foldl_cons, step_separator room (by omega), List.foldl_append, run_digits,
      ih _ (by omega), List.append_assoc]
    rfl

/-- Where there is none, everything goes to the last argument. -/
lemma run_full (room : closed.length < 8) (hlen : closed.length = 7) :
    (rest ds).foldl Reading.step (.arg closed last room) =
      .arg closed (last ++ ds.flatten) room := by
  induction ds generalizing last with
  | nil => simp [rest]
  | cons d ds ih =>
    rw [rest_cons, List.foldl_cons, step_surplus room hlen, List.foldl_append, run_digits, ih,
      List.flatten_cons, List.append_assoc]

lemma recvBytes_start (h : t.ansiState = .ground) :
    t.recvBytes [0x1B, 0x5B] = .ok (inState t Reading.start.state) := by
  have hesc : t.recvByte 0x1B = .ok (inState t .escape) := by
    unfold Terminal.recvByte
    rw [h]
    rfl
  exact run_cons_ok.mpr ⟨_, hesc, rfl⟩

/-- After its first two bytes nothing but the reading changes before an `m`. -/
lemma recvBytes_csi (h : t.ansiState = .ground) {w : List UInt8} (hw : 0x6D ∉ w) :
    ∃ closed last room, w.foldl Reading.step .start = .arg closed last room ∧
      t.recvBytes ([0x1B, 0x5B] ++ w) =
        .ok (inState t (Reading.arg closed last room).state) := by
  obtain ⟨closed, last, room, hrun, hread⟩ :=
    recvBytes_arg (t := inState t Reading.start.state) Reading.room_nil rfl hw
  exact ⟨closed, last, room, hrun, run_append_ok.mpr ⟨_, recvBytes_start h, hread⟩⟩

/-- A sequence colours by the numbers that were read. -/
lemma recvBytes_sequence (h : t.ansiState = .ground) {w : List UInt8} (hw : 0x6D ∉ w) :
    t.recvBytes ([0x1B, 0x5B] ++ w ++ [0x6D]) = .ok (recolor t
      (((w.foldl Reading.step .start).strings.map fun d => value d % 2 ^ 64).foldl sgr
        (colors t))) := by
  obtain ⟨closed, last, room, hrun, hread⟩ := recvBytes_csi h hw
  have hfinal := recvByte_final room (t := inState t (Reading.arg closed last room).state) rfl
  refine run_append_ok.mpr ⟨_, hread, run_cons_ok.mpr ⟨_, hfinal, ?_⟩⟩
  rw [run_nil, hrun, ← h]
  rfl

end Sequence

/-- **SGR sequences are decoded as written.** -/
theorem recvBytes_sgr (t : Terminal) (h : t.ansiState = .ground) (ds : List Digits)
    (h1 : 1 ≤ ds.length) (h8 : ds.length ≤ 8) (hv : ∀ d ∈ ds, value d < 2 ^ 64) :
    t.recvBytes (sequence ds) =
      .ok (recolor t ((ds.map value).foldl sgr (colors t))) := by
  cases ds with
  | nil => contradiction
  | cons d ds =>
    rw [List.length_cons] at h8
    have hread : ((d.map digitByte ++ rest ds).foldl Reading.step .start).strings = d :: ds := by
      rw [List.foldl_append, Reading.start, run_digits, run_rest Reading.room_nil]
      · rfl
      · rw [List.length_nil]
        omega
    have hnum : ((d :: ds).map fun d => value d % 2 ^ 64) = (d :: ds).map value :=
      List.map_congr_left fun d hd => Nat.mod_eq_of_lt (hv d hd)
    rw [sequence_cons, recvBytes_sequence h (m_not_mem d ds), hread, hnum]

-- red on the default, then the default, then a blue background
theorem recvBytes_sgr_small :
    (Terminal.new (fun _ => 0) small).recvBytes (sequence [[3, 1], [], [0, 4, 4]]) =
      .ok (recolor (Terminal.new (fun _ => 0) small)
        (([[3, 1], [], [0, 4, 4]].map value).foldl sgr ⟨0xC0C0C0, 0x1A1B26⟩)) :=
  recvBytes_sgr _ rfl _ (by decide) (by decide) (by decide)

/-! ### More than eight arguments -/

/-- The surplus arguments are dropped: the `m` finds the first eight, as they are written, and
colours by them. -/
structure Dropped (t : Terminal) (first : List Digits) (eighth : Digits)
    (surplus : List Digits) : Prop where
  args : ∃ t' a, t.recvBytes (sequence (first ++ eighth :: surplus)).dropLast = .ok t' ∧
    t'.ansiState = .arg a ∧
    a.args = (first ++ [eighth]).map fun d => UInt64.ofNat (value d)
  colors : t.recvBytes (sequence (first ++ eighth :: surplus)) =
    .ok (recolor t (((first ++ [eighth]).map value).foldl sgr (colors t)))

section Surplus

variable {t : Terminal} {first surplus : List Digits} {eighth : Digits}

lemma eq_arg_of_strings {r : Reading} (h : r.strings = first ++ [eighth]) :
    ∃ room, r = .arg first eighth room := by
  rcases r with _ | _ | ⟨closed, last, room⟩
  · simp [Reading.strings] at h
  · simp [Reading.strings] at h
  · obtain ⟨rfl, hlast⟩ := List.append_inj' h rfl
    cases hlast
    exact ⟨room, rfl⟩

/-- The digits of the surplus arguments go on where those of the eighth end. -/
lemma run_surplus (h7 : first.length = 7) (eighth : Digits) (surplus : List Digits) : ∃ w room,
    sequence (first ++ eighth :: surplus) = [0x1B, 0x5B] ++ w ++ [0x6D] ∧ 0x6D ∉ w ∧
      w.foldl Reading.step .start = .arg first (eighth ++ surplus.flatten) room := by
  cases first with
  | nil => contradiction
  | cons d ds =>
    rw [List.length_cons] at h7
    have hsplit : rest (ds ++ eighth :: surplus) = rest (ds ++ [eighth]) ++ rest surplus := by
      simp [rest]
    have hstrings : ((d.map digitByte ++ rest (ds ++ [eighth])).foldl Reading.step
        .start).strings = d :: ds ++ [eighth] := by
      rw [List.foldl_append, Reading.start, run_digits, run_rest Reading.room_nil]
      · rfl
      · simp [h7]
    obtain ⟨room, hrun⟩ := eq_arg_of_strings hstrings
    refine ⟨d.map digitByte ++ rest (ds ++ eighth :: surplus), room, ?_, m_not_mem _ _, ?_⟩
    · rw [List.cons_append, sequence_cons]
    · rw [hsplit, ← List.append_assoc, List.foldl_append, hrun, run_full room h7]

/-- **What surplus arguments do.** They are read as more digits of the eighth. -/
theorem recvBytes_surplus (h : t.ansiState = .ground) (h7 : first.length = 7)
    (hv : ∀ d ∈ first, value d < 2 ^ 64) :
    t.recvBytes (sequence (first ++ eighth :: surplus)) =
      .ok (recolor t (sgr ((first.map value).foldl sgr (colors t))
        (value (eighth ++ surplus.flatten) % 2 ^ 64))) := by
  obtain ⟨w, room, hw, hm, hrun⟩ := run_surplus h7 eighth surplus
  have hnum : (first.map fun d => value d % 2 ^ 64) = first.map value :=
    List.map_congr_left fun d hd => Nat.mod_eq_of_lt (hv d hd)
  rw [hw, recvBytes_sequence h hm, hrun, Reading.strings, List.map_append, hnum,
    List.foldl_append]
  rfl

/-- The arguments as the final byte finds them. -/
lemma recvBytes_unfinished (h : t.ansiState = .ground) (h7 : first.length = 7)
    (eighth : Digits) (surplus : List Digits) :
    t.recvBytes (sequence (first ++ eighth :: surplus)).dropLast =
      .ok (inState t (.arg (argsOf first (eighth ++ surplus.flatten)))) := by
  obtain ⟨w, room, hw, hm, hrun⟩ := run_surplus h7 eighth surplus
  obtain ⟨closed, last, room', hrun', hread⟩ := recvBytes_csi h hm
  have heq : Reading.arg closed last room' = .arg first (eighth ++ surplus.flatten) room :=
    hrun'.symm.trans hrun
  rw [heq] at hread
  rw [hw, List.dropLast_concat, hread]
  rfl

lemma args_full (h7 : first.length = 7) (last : Digits) :
    (argsOf first last).args = (first ++ [last]).map fun d => UInt64.ofNat (value d) := by
  simp [argsOf, h7]

/-- Surplus arguments are dropped exactly where their digits leave the eighth its value: `k`
digits of value `r` in all make `8th * 10 ^ k + r` of it, in 64 bits. -/
theorem dropped_iff (h : t.ansiState = .ground) (h7 : first.length = 7)
    (hv : ∀ d ∈ first ++ eighth :: surplus, value d < 2 ^ 64) :
    Dropped t first eighth surplus ↔
      (value eighth * 10 ^ surplus.flatten.length + value surplus.flatten) % 2 ^ 64 =
        value eighth := by
  have h8 : value eighth < 2 ^ 64 := hv eighth (by simp)
  have hread := recvBytes_unfinished h h7 eighth surplus
  rw [← value_append]
  constructor
  · rintro ⟨⟨t', a, ht', ha, hargs⟩, -⟩
    cases hread.symm.trans ht'
    cases ha
    rw [args_full h7, List.map_append, List.map_append] at hargs
    have hlast := List.head_eq_of_cons_eq (List.append_cancel_left hargs)
    have hnum := congrArg UInt64.toNat hlast
    rwa [UInt64.toNat_ofNat', UInt64.toNat_ofNat', Nat.mod_eq_of_lt h8] at hnum
  · intro hnum
    refine ⟨⟨_, _, hread, rfl, ?_⟩, ?_⟩
    · have hlast : UInt64.ofNat (value (eighth ++ surplus.flatten)) =
          UInt64.ofNat (value eighth) := by
        rw [← UInt64.ofNat_mod_size, hnum]
      rw [args_full h7, List.map_append, List.map_append, List.map_singleton, hlast]
      rfl
    · have hfirst : ∀ d ∈ first, value d < 2 ^ 64 := fun d hd => hv d (List.mem_append_left _ hd)
      rw [recvBytes_surplus h h7 hfirst, hnum, List.map_append, List.foldl_append]
      rfl

end Surplus

/-- A ninth argument turns a 3 into a 31: the text gets red. -/
theorem surplus_acts : ¬∀ (t : Terminal) (ds : List Digits), t.ansiState = .ground →
    8 < ds.length → (∀ d ∈ ds, value d < 2 ^ 64) →
    t.recvBytes (sequence ds) =
      .ok (recolor t (((ds.take 8).map value).foldl sgr (colors t))) := by
  intro h
  have hall := h (Terminal.new (fun _ => 0) small) (List.replicate 7 [] ++ [[3], [1]]) rfl
    (by decide) (by decide)
  have hred : ((Terminal.new (fun _ => 0) small).recvBytes
      (sequence (List.replicate 7 [] ++ [[3], [1]]))).map Terminal.fgColor = .ok 0xF7768E := by
    rfl
  rw [hall] at hred
  exact absurd hred (by decide)

-- the ninth argument is a 7, after which the eighth is what it was, in 64 bits; the tenth is empty
theorem dropped_seven : Dropped (Terminal.new (fun _ => 0) small) (List.replicate 7 [])
    [2, 0, 4, 9, 6, 3, 8, 2, 3, 0, 4, 1, 2, 1, 7, 2, 4, 0, 1] [[7], []] :=
  (dropped_iff rfl rfl (by decide)).mpr rfl

/-! ### Arithmetic -/

/-- `recvByte` of a build that checks the update of an argument for overflow. -/
def recvByteChecked (t : Terminal) (c : UInt8) : Res Terminal :=
  match t.ansiState with
  | .arg args =>
    if IsDigit c then do
      let last ← index args.args (args.count - 1)
      if 2 ^ 64 ≤ last.toNat * 10 then .error (.panic "attempt to multiply with overflow")
      else if 2 ^ 64 ≤ last.toNat * 10 + (c - 0x30).toNat then
        .error (.panic "attempt to add with overflow")
      else t.recvByte c
    else t.recvByte c
  | _ => t.recvByte c

/-- The strings of digits begun when the bytes are read. -/
def stringsOf (buf : List UInt8) : List Digits := (buf.foldl Reading.step .ground).strings

/-- The arithmetic of the arguments does not overflow: an update stays within 64 bits, a build
that checks it does not panic, and in one that does not no number of more than 64 bits acts as
a code for a colour. -/
structure NoOverflow (t : Terminal) (buf : List UInt8) : Prop where
  update : ∀ u c v, buf = u ++ c :: v → IsDigit c → ∀ t' a last, t.recvBytes u = .ok t' →
    t'.ansiState = .arg a → index a.args (a.count - 1) = .ok last →
    last.toNat * 10 + (c - 0x30).toNat < 2 ^ 64
  checked : ∃ t', run recvByteChecked t buf = .ok t'
  release : ∀ u v, buf = u ++ 0x6D :: v → ∀ t' a, t.recvBytes u = .ok t' →
    t'.ansiState = .arg a → ∀ (i : ℕ) (d : Digits) (num : UInt64), (stringsOf u)[i]? = some d →
    2 ^ 64 ≤ value d → a.args[i]? = some num → ∀ c, sgr c num.toNat = c

/-- At no moment an argument has digits for a number of more than 64 bits. -/
def ShortFrom (r : Reading) (buf : List UInt8) : Prop :=
  ∀ u, u <+: buf → ∀ d ∈ (u.foldl Reading.step r).strings, value d < 2 ^ 64

def Short (buf : List UInt8) : Prop := ShortFrom .ground buf

section Overflow

variable {fb : LimineFramebuffer} {t t' : Terminal} {r : Reading} {buf : List UInt8}

lemma putChar_ansiState {c : UInt8} (h : t.putChar c = .ok t') :
    t'.ansiState = t.ansiState := by
  have hfeed (t : Terminal) : t.lineFeed.ansiState = t.ansiState := by
    unfold Terminal.lineFeed
    dsimp only
    split <;> rfl
  unfold Terminal.putChar at h
  dsimp only at h
  split at h
  · cases h
    exact hfeed _
  · obtain ⟨f, -, h⟩ := bind_ok.mp h
    cases h
    split
    · exact hfeed _
    · rfl

/-- The parser of a terminal stays where the reading of the stream is. -/
lemma recvByte_state {c : UInt8} (h : t.ansiState = r.state) (hr : t.recvByte c = .ok t') :
    t'.ansiState = (r.step c).state := by
  rcases r with _ | _ | ⟨closed, last, room⟩
  · unfold Terminal.recvByte at hr
    simp only [h, Reading.state] at hr
    unfold Reading.step
    split at hr
    · next hc =>
      cases hr
      simp only [if_pos hc, Reading.state]
    · next hc =>
      rw [putChar_ansiState hr, h]
      simp only [if_neg hc, Reading.state]
  · unfold Terminal.recvByte at hr
    simp only [h, Reading.state] at hr
    unfold Reading.step
    split at hr
    · next hc =>
      cases hr
      simp only [if_pos hc]
      rfl
    · next hc =>
      cases hr
      simp only [if_neg hc, Reading.state]
  · by_cases hc : c = 0x6D
    · subst hc
      cases (recvByte_final room h).symm.trans hr
      rfl
    · cases (recvByte_arg h hc).symm.trans hr
      rfl

lemma recvBytes_state (h : t.ansiState = r.state) (hr : t.recvBytes buf = .ok t') :
    t'.ansiState = (buf.foldl Reading.step r).state := by
  induction buf generalizing t r with
  | nil =>
    cases hr
    exact h
  | cons c buf ih =>
    obtain ⟨t₁, h₁, hr⟩ := run_cons_ok.mp hr
    exact ih (recvByte_state h h₁) hr

/-- Only a digit makes a number longer. -/
lemma strings_step {c : UInt8} (hc : ¬IsDigit c ∨ r.strings = []) :
    ∀ d ∈ (r.step c).strings, d ∈ r.strings ∨ d = [] := by
  intro d hd
  rcases r with _ | _ | ⟨closed, last, room⟩
  · simp only [Reading.step] at hd
    split at hd <;> contradiction
  · simp only [Reading.step] at hd
    split at hd
    · exact .inr (List.mem_singleton.mp hd)
    · contradiction
  · have hdigit : ¬IsDigit c := hc.resolve_right (by simp [Reading.strings])
    simp only [Reading.step, if_neg hdigit] at hd
    split at hd
    · split at hd
      · exact (List.mem_append.mp hd).imp_right List.mem_singleton.mp
      · exact .inl hd
    split at hd
    · contradiction
    · exact .inl hd

lemma recvByteChecked_other {c : UInt8} (h : t.ansiState = r.state)
    (hc : ¬IsDigit c ∨ r.strings = []) : recvByteChecked t c = t.recvByte c := by
  unfold recvByteChecked
  rcases r with _ | _ | ⟨closed, last, room⟩
  · rw [h]
    rfl
  · rw [h]
    rfl
  · have hdigit : ¬IsDigit c := hc.resolve_right (by simp [Reading.strings])
    rw [h]
    exact if_neg hdigit

lemma recvByteChecked_digit {c : UInt8} {closed : List Digits} {last : Digits}
    (room : closed.length < 8) (h : t.ansiState = (Reading.arg closed last room).state)
    (hc : IsDigit c) (hlast : value last < 2 ^ 64) :
    recvByteChecked t c = .ok t' ↔
      value (last ++ [digitOf c]) < 2 ^ 64 ∧ t.recvByte c = .ok t' := by
  have hnum : (UInt64.ofNat (value last)).toNat = value last := UInt64.toNat_ofNat_of_lt' hlast
  have hnext : value (last ++ [digitOf c]) = value last * 10 + (c - 0x30).toNat := by
    rw [value_snoc, digitOf_val hc]
  unfold recvByteChecked
  simp only [h, Reading.state]
  rw [if_pos hc, index_last room, ok_bind, hnum, hnext]
  split
  · next hm =>
    refine ⟨fun ht => by contradiction, fun ht => ?_⟩
    omega
  split
  · next hm ha =>
    refine ⟨fun ht => by contradiction, fun ht => ?_⟩
    omega
  · next hm ha => exact ⟨fun ht => ⟨Nat.lt_of_not_le ha, ht⟩, And.right⟩

/-- A number that gets more than 64 bits, and nothing else, stops the build with the check. -/
lemma recvByteChecked_ok {c : UInt8} (h : t.ansiState = r.state)
    (hr : ∀ d ∈ r.strings, value d < 2 ^ 64) :
    recvByteChecked t c = .ok t' ↔
      (∀ d ∈ (r.step c).strings, value d < 2 ^ 64) ∧ t.recvByte c = .ok t' := by
  by_cases hc : ¬IsDigit c ∨ r.strings = []
  · rw [recvByteChecked_other h hc]
    refine ⟨fun ht => ⟨fun d hd => ?_, ht⟩, And.right⟩
    rcases strings_step hc d hd with hd | rfl
    · exact hr d hd
    · decide
  · obtain ⟨hdigit, hstrings⟩ := not_or.mp hc
    rcases r with _ | _ | ⟨closed, last, room⟩
    · contradiction
    · contradiction
    · have hdigit := not_not.mp hdigit
      have hall : (∀ d ∈ ((Reading.arg closed last room).step c).strings, value d < 2 ^ 64) ↔
          value (last ++ [digitOf c]) < 2 ^ 64 := by
        simp only [Reading.step, if_pos hdigit, Reading.strings, List.mem_append,
          List.mem_singleton]
        refine ⟨fun hall => hall _ (.inr rfl), fun hlt d hd => ?_⟩
        rcases hd with hd | rfl
        · exact hr d (List.mem_append_left _ hd)
        · exact hlt
      rw [hall]
      exact recvByteChecked_digit room h hdigit (hr last (by simp [Reading.strings]))

lemma shortFrom_nil : ShortFrom r [] ↔ ∀ d ∈ r.strings, value d < 2 ^ 64 := by
  refine ⟨fun h => h [] List.nil_prefix, fun hr u hu => ?_⟩
  rw [List.prefix_nil.mp hu]
  exact hr

lemma shortFrom_cons {c : UInt8} : ShortFrom r (c :: buf) ↔
    (∀ d ∈ r.strings, value d < 2 ^ 64) ∧ ShortFrom (r.step c) buf := by
  constructor
  · intro h
    exact ⟨h [] List.nil_prefix, fun u hu => h (c :: u) (List.prefix_cons_inj c |>.mpr hu)⟩
  · rintro ⟨hr, h⟩ u hu
    rcases List.prefix_cons_iff.mp hu with rfl | ⟨u', rfl, hu'⟩
    · exact hr
    · exact h u' hu'

instance ShortFrom.decidable :
    ∀ (r : Reading) (buf : List UInt8), Decidable (ShortFrom r buf)
  | _, [] => decidable_of_iff _ shortFrom_nil.symm
  | r, c :: buf =>
    haveI := ShortFrom.decidable (r.step c) buf
    decidable_of_iff _ shortFrom_cons.symm

instance (buf : List UInt8) : Decidable (Short buf) :=
  inferInstanceAs (Decidable (ShortFrom .ground buf))

lemma run_checked (hu : Usable fb) (hb : InBounds fb t) (h : t.ansiState = r.state)
    (hr : ∀ d ∈ r.strings, value d < 2 ^ 64) (buf : List UInt8) :
    (∃ t', run recvByteChecked t buf = .ok t') ↔ ShortFrom r buf := by
  induction buf generalizing t r with
  | nil => exact ⟨fun _ => shortFrom_nil.mpr hr, fun _ => ⟨t, rfl⟩⟩
  | cons c buf ih =>
    obtain ⟨t₁, h₁, hb₁⟩ := call_inBounds hu t (.recvByte c) hb
    have hs₁ := recvByte_state h h₁
    rw [shortFrom_cons]
    constructor
    · rintro ⟨t', ht'⟩
      obtain ⟨t₂, h₂, hrest⟩ := run_cons_ok.mp ht'
      obtain ⟨hnext, h₂'⟩ := (recvByteChecked_ok h hr).mp h₂
      cases h₁.symm.trans h₂'
      exact ⟨hr, (ih hb₁ hs₁ hnext).mp ⟨t', hrest⟩⟩
    · rintro ⟨-, hshort⟩
      have hnext := hshort [] List.nil_prefix
      obtain ⟨t', ht'⟩ := (ih hb₁ hs₁ hnext).mpr hshort
      exact ⟨t', run_cons_ok.mpr ⟨t₁, (recvByteChecked_ok h hr).mpr ⟨hnext, h₁⟩, ht'⟩⟩

/-- **When the arithmetic does not overflow.** -/
theorem noOverflow_iff (hu : Usable fb) (hb : InBounds fb t) (h : t.ansiState = .ground) :
    NoOverflow t buf ↔ Short buf := by
  have hrun := run_checked (r := .ground) hu hb h (fun d hd => absurd hd List.not_mem_nil) buf
  refine ⟨fun hno => hrun.mp hno.checked, fun hshort => ⟨?_, hrun.mpr hshort, ?_⟩⟩
  · rintro u c v rfl hc t' a last ht' ha hi
    have hstate := (recvBytes_state (r := .ground) h ht').symm.trans ha
    have hpre := hshort u (List.prefix_append _ _)
    have hnext := hshort (u ++ [c]) ⟨v, by simp⟩
    rw [List.foldl_append] at hnext
    rcases hr : u.foldl Reading.step .ground with _ | _ | ⟨closed, last', room⟩
    · rw [hr] at hstate
      contradiction
    · rw [hr] at hstate
      contradiction
    · rw [hr] at hstate hpre hnext
      cases hstate
      cases (index_last room).symm.trans hi
      have hlast := hpre last' (by simp [Reading.strings])
      have hlt := hnext (last' ++ [digitOf c]) (by simp [Reading.step, hc, Reading.strings])
      rw [value_snoc, digitOf_val hc] at hlt
      rwa [UInt64.toNat_ofNat_of_lt' hlast]
  · rintro u v rfl t' a - - i d num hd hbig - c
    have hlt := hshort u (List.prefix_append _ _) d (List.mem_of_getElem? hd)
    exact absurd hlt (Nat.not_lt_of_le hbig)

end Overflow

/-- 2^64 + 31 in decimal. -/
def longRed : Digits := [1, 8, 4, 4, 6, 7, 4, 4, 0, 7, 3, 7, 0, 9, 5, 5, 1, 6, 4, 7]

/-- A number of more than 64 bits stops one build and makes the text red in the other. -/
theorem overflow_acts :
    (¬∀ (mem : UInt64 → UInt32) (fb : LimineFramebuffer) (buf : List UInt8), Usable fb →
      NoOverflow (Terminal.new mem fb) buf) ∧
    run recvByteChecked (Terminal.new (fun _ => 0) small) (sequence [longRed]) =
      .error (.panic "attempt to multiply with overflow") ∧
    ((Terminal.new (fun _ => 0) small).recvBytes (sequence [longRed])).map Terminal.fgColor =
      .ok 0xF7768E := by
  have hpanic : run recvByteChecked (Terminal.new (fun _ => 0) small) (sequence [longRed]) =
      .error (.panic "attempt to multiply with overflow") := by
    rfl
  refine ⟨fun h => ?_, hpanic, by rfl⟩
  obtain ⟨t', ht'⟩ := (h (fun _ => 0) small (sequence [longRed]) small_usable).checked
  rw [hpanic] at ht'
  contradiction

-- the largest number of 64 bits, and text around it
theorem noOverflow_largest : NoOverflow (Terminal.new (fun _ => 0) small)
    ([0x41] ++ sequence [[1, 8, 4, 4, 6, 7, 4, 4, 0, 7, 3, 7, 0, 9, 5, 5, 1, 6, 1, 5]] ++ [0x42]) :=
  (noOverflow_iff small_usable (inBounds_new _ small_usable) rfl).mpr (by decide +kernel)

end OsRust.Sgr
