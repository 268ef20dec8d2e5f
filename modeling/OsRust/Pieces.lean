import OsRust.Sgr

/-!
What a byte stream says to the terminal. Every stream is in one way a list of characters, two-byte
escapes and control sequences up to their `m`, with the beginning of another at its end. The terminal
prints the characters, each in the colours that the control sequences before it leave, and nothing
else.
-/

namespace OsRust.Pieces

open OsRust.Console OsRust.Sgr OsRust.Lib.Machine

/-! ### Streams -/

inductive Piece
  /-- any byte but ESC -/
  | char (c : UInt8) (h : c ≠ 0x1B)
  /-- `ESC` and a byte other than `[` -/
  | escape (c : UInt8) (h : c ≠ 0x5B)
  /-- `ESC [ … m` -/
  | csi (w : List UInt8) (h : 0x6D ∉ w)

/-- The beginning of a piece. -/
inductive Tail
  | none
  | escape
  | csi (w : List UInt8) (h : 0x6D ∉ w)

structure Stream where
  pieces : List Piece
  tail : Tail

def Piece.bytes : Piece → List UInt8
  | .char c _ => [c]
  | .escape c _ => [0x1B, c]
  | .csi w _ => [0x1B, 0x5B] ++ w ++ [0x6D]

def Tail.bytes : Tail → List UInt8
  | .none => []
  | .escape => [0x1B]
  | .csi w _ => [0x1B, 0x5B] ++ w

def text (ps : List Piece) : List UInt8 := ps.flatMap Piece.bytes

def Stream.bytes (s : Stream) : List UInt8 := text s.pieces ++ s.tail.bytes

@[simp] lemma text_nil : text [] = [] := rfl

@[simp] lemma text_cons (p : Piece) (ps : List Piece) : text (p :: ps) = p.bytes ++ text ps :=
  List.flatMap_cons

@[simp] lemma text_append (ps qs : List Piece) : text (ps ++ qs) = text ps ++ text qs :=
  List.flatMap_append

variable {w : List UInt8} {c : UInt8}

lemma notMem_snoc (hw : 0x6D ∉ w) (hc : c ≠ 0x6D) : 0x6D ∉ w ++ [c] := by
  rw [List.mem_append, List.mem_singleton]
  exact not_or.mpr ⟨hw, Ne.symm hc⟩

/-- A byte more: it may end a piece. -/
def Tail.next : Tail → UInt8 → List Piece × Tail
  | .none, c => if h : c = 0x1B then ([], .escape) else ([.char c h], .none)
  | .escape, c =>
    if h : c = 0x5B then ([], .csi [] List.not_mem_nil) else ([.escape c h], .none)
  | .csi w hw, c =>
    if h : c = 0x6D then ([.csi w hw], .none) else ([], .csi (w ++ [c]) (notMem_snoc hw h))

/-- The stream whose first bytes are those of `tail`. -/
def parse : Tail → List UInt8 → Stream
  | tail, [] => ⟨[], tail⟩
  | tail, c :: buf =>
    let (ps, tail) := tail.next c
    let s := parse tail buf
    ⟨ps ++ s.pieces, s.tail⟩

@[simp] lemma parse_nil (tail : Tail) : parse tail [] = ⟨[], tail⟩ := rfl

lemma parse_cons (tail : Tail) (c : UInt8) (buf : List UInt8) :
    parse tail (c :: buf) = ⟨(tail.next c).1 ++ (parse (tail.next c).2 buf).pieces,
      (parse (tail.next c).2 buf).tail⟩ := rfl

lemma parse_append (tail : Tail) (u v : List UInt8) :
    parse tail (u ++ v) = ⟨(parse tail u).pieces ++ (parse (parse tail u).tail v).pieces,
      (parse (parse tail u).tail v).tail⟩ := by
  induction u generalizing tail with
  | nil => rfl
  | cons c u ih => rw [List.cons_append, parse_cons, parse_cons, ih, List.append_assoc]

lemma bytes_next (tail : Tail) (c : UInt8) :
    text (tail.next c).1 ++ (tail.next c).2.bytes = tail.bytes ++ [c] := by
  cases tail with
  | none =>
    by_cases h : c = 0x1B
    · subst h
      rfl
    · simp [Tail.next, h, Piece.bytes, Tail.bytes]
  | escape =>
    by_cases h : c = 0x5B
    · subst h
      rfl
    · simp [Tail.next, h, Piece.bytes, Tail.bytes]
  | csi w hw =>
    by_cases h : c = 0x6D
    · subst h
      simp [Tail.next, Piece.bytes, Tail.bytes]
    · simp [Tail.next, h, Tail.bytes]

/-- What is read is what was written. -/
lemma bytes_parse (tail : Tail) (buf : List UInt8) :
    (parse tail buf).bytes = tail.bytes ++ buf := by
  induction buf generalizing tail with
  | nil => simp [Stream.bytes]
  | cons c buf ih =>
    have hih := ih (tail.next c).2
    rw [Stream.bytes] at hih
    rw [parse_cons, Stream.bytes, text_append, List.append_assoc, hih, ← List.append_assoc,
      bytes_next, List.append_assoc, List.singleton_append]

lemma parse_csi (hw : 0x6D ∉ w) {v : List UInt8} (hv : 0x6D ∉ v) (hwv : 0x6D ∉ w ++ v) :
    parse (.csi w hw) v = ⟨[], .csi (w ++ v) hwv⟩ := by
  induction v generalizing w with
  | nil => simp
  | cons c v ih =>
    obtain ⟨hc, hv⟩ := not_or.mp (mt List.mem_cons.mpr hv)
    have hsnoc := notMem_snoc hw (Ne.symm hc)
    have hnext : (Tail.csi w hw).next c = ([], .csi (w ++ [c]) hsnoc) := dif_neg (Ne.symm hc)
    have hwv' : 0x6D ∉ (w ++ [c]) ++ v := by simpa using hwv
    rw [parse_cons, hnext, ih hsnoc hv hwv']
    simp

lemma parse_piece (p : Piece) : parse .none p.bytes = ⟨[p], .none⟩ := by
  cases p with
  | char c h => simp [Piece.bytes, parse_cons, Tail.next, h]
  | escape c h => simp [Piece.bytes, parse_cons, Tail.next, h]
  | csi w hw =>
    have hcsi := parse_csi List.not_mem_nil hw (by simpa using hw)
    have hstart : parse .none [0x1B, 0x5B] = ⟨[], .csi [] List.not_mem_nil⟩ := rfl
    rw [Piece.bytes, parse_append, parse_append, hstart, hcsi]
    simp [parse_cons, Tail.next]

lemma parse_tail (tail : Tail) : parse .none tail.bytes = ⟨[], tail⟩ := by
  cases tail with
  | none => rfl
  | escape => rfl
  | csi w hw =>
    have hcsi := parse_csi List.not_mem_nil hw (by simpa using hw)
    have hstart : parse .none [0x1B, 0x5B] = ⟨[], .csi [] List.not_mem_nil⟩ := rfl
    rw [Tail.bytes, parse_append, hstart, hcsi]
    simp

/-- What is written is read. -/
lemma parse_bytes (s : Stream) : parse .none s.bytes = s := by
  obtain ⟨ps, tail⟩ := s
  induction ps with
  | nil => exact parse_tail tail
  | cons p ps ih =>
    rw [Stream.bytes] at ih
    rw [Stream.bytes, text_cons, List.append_assoc, parse_append, parse_piece, ih]
    rfl

/-! ### What is shown -/

/-- The numbers the parser reads in a control sequence. -/
def Piece.codes : Piece → List ℕ
  | .csi w _ => (w.foldl Reading.step .start).strings.map fun d => value d % 2 ^ 64
  | _ => []

/-- The colours behind a piece. -/
def Piece.colors (c : Colors) (p : Piece) : Colors := p.codes.foldl sgr c

def Piece.puts (c : Colors) : Piece → List Put
  | .char b _ => [⟨b, c.fg, c.bg⟩]
  | _ => []

def colorsAfter (c : Colors) (ps : List Piece) : Colors := ps.foldl Piece.colors c

/-- The characters, each in its colours. -/
def shown : Colors → List Piece → List Put
  | _, [] => []
  | c, p :: ps => p.puts c ++ shown (p.colors c) ps

def Tail.reading : Tail → Reading
  | .none => .ground
  | .escape => .escape
  | .csi w _ => w.foldl Reading.step .start

def Tail.state (tail : Tail) : AnsiState := tail.reading.state

/-- Print the characters, whatever the colours and the state of the parser. -/
def print (t : Terminal) (puts : List Put) : Res Terminal :=
  run (fun t p => (inState (recolor t ⟨p.fg, p.bg⟩) .ground).putChar p.c) t puts

lemma shown_append (c : Colors) (ps qs : List Piece) :
    shown c (ps ++ qs) = shown c ps ++ shown (colorsAfter c ps) qs := by
  induction ps generalizing c with
  | nil => rfl
  | cons p ps ih => rw [List.cons_append, shown, shown, ih, List.append_assoc]; rfl

lemma colorsAfter_append (c : Colors) (ps qs : List Piece) :
    colorsAfter c (ps ++ qs) = colorsAfter (colorsAfter c ps) qs := List.foldl_append

variable {t t' t₁ u : Terminal} {k : Colors}

/-- The terminal but for its colours and the state of its parser. -/
def plain (t : Terminal) : Terminal := inState (recolor t ⟨0, 0⟩) .ground

lemma plain_eq (t : Terminal) (k : Colors) (st : AnsiState) :
    plain (inState (recolor t k) st) = plain t := rfl

lemma eq_of_plain (h : plain t = plain t') (k : Colors) (st : AnsiState) :
    inState (recolor t k) st = inState (recolor t' k) st := by
  have := congrArg (fun t => inState (recolor t k) st) h
  exact this

lemma print_cons {p : Put} {ps : List Put} : print t (p :: ps) = .ok u ↔
    ∃ t₁, (inState (recolor t ⟨p.fg, p.bg⟩) .ground).putChar p.c = .ok t₁ ∧
      print t₁ ps = .ok u := run_cons_ok

lemma print_append {ps qs : List Put} : print t (ps ++ qs) = .ok u ↔
    ∃ t₁, print t ps = .ok t₁ ∧ print t₁ qs = .ok u := run_append_ok

/-- The colours and the parser are set anew for each character. -/
lemma print_plain {ps : List Put} (h : plain t = plain t') (hp : print t ps = .ok u) :
    ∃ u', print t' ps = .ok u' ∧ plain u = plain u' := by
  cases ps with
  | nil =>
    cases hp
    exact ⟨t', rfl, h⟩
  | cons p ps =>
    rw [print_cons, eq_of_plain h] at hp
    exact ⟨u, print_cons.mpr hp, rfl⟩

lemma putChar_colors {b : UInt8} (h : t.putChar b = .ok t') : colors t' = colors t := by
  have hfeed (t : Terminal) : colors t.lineFeed = colors t := by
    unfold Terminal.lineFeed
    dsimp only
    split <;> rfl
  unfold Terminal.putChar at h
  dsimp only at h
  split at h
  · cases h
    exact hfeed _
  · obtain ⟨f, -, h⟩ := bind_ok.mp h
    cases h
    split
    · exact hfeed _
    · rfl

/-- **One byte more.** -/
lemma recvByte_next {tail : Tail} (h : t.ansiState = tail.state) (c : UInt8) :
    t.recvByte c = .ok t' ↔ ∃ t₁, print t (shown (colors t) (tail.next c).1) = .ok t₁ ∧
      t' = inState (recolor t₁ (colorsAfter (colors t) (tail.next c).1)) (tail.next c).2.state := by
  -- where no character is printed
  have hquiet : ∀ k st, t.recvByte c = .ok (inState (recolor t k) st) →
      shown (colors t) (tail.next c).1 = [] → colorsAfter (colors t) (tail.next c).1 = k →
      (tail.next c).2.state = st → (t.recvByte c = .ok t' ↔
        ∃ t₁, print t (shown (colors t) (tail.next c).1) = .ok t₁ ∧ t' = inState (recolor t₁
          (colorsAfter (colors t) (tail.next c).1)) (tail.next c).2.state) := by
    intro k st hr hs hk hst
    rw [hr, hs, hk, hst]
    constructor
    · rintro ⟨⟩
      exact ⟨t, rfl, rfl⟩
    · rintro ⟨t₁, ⟨⟩, rfl⟩
      rfl
  cases tail with
  | none =>
    by_cases hc : c = 0x1B
    · subst hc
      refine hquiet (colors t) .escape ?_ rfl rfl rfl
      unfold Terminal.recvByte
      rw [h]
      rfl
    · have hnext : Tail.none.next c = ([.char c hc], .none) := dif_neg hc
      have hground : inState (recolor t (colors t)) .ground = t := by
        show inState t .ground = t
        rw [show AnsiState.ground = t.ansiState from h.symm]
        rfl
      have hr : t.recvByte c = t.putChar c := by
        unfold Terminal.recvByte
        rw [h]
        exact if_neg hc
      have hp : ∀ u, print t [⟨c, (colors t).fg, (colors t).bg⟩] = .ok u ↔ t.putChar c = .ok u := by
        intro u
        rw [print_cons, hground]
        constructor
        · rintro ⟨t₁, ht, ⟨⟩⟩
          exact ht
        · exact fun hu => ⟨u, hu, rfl⟩
      rw [hnext, hr]
      show _ ↔ ∃ t₁, print t [⟨c, (colors t).fg, (colors t).bg⟩] = .ok t₁ ∧
        t' = inState (recolor t₁ (colors t)) .ground
      have hkeep : ∀ u, t.putChar c = .ok u → inState (recolor u (colors t)) .ground = u := by
        intro u hu
        rw [← putChar_colors hu]
        show inState u .ground = u
        rw [show AnsiState.ground = u.ansiState from ((putChar_ansiState hu).trans h).symm]
        rfl
      constructor
      · exact fun hu => ⟨t', (hp t').mpr hu, (hkeep t' hu).symm⟩
      · rintro ⟨t₁, ht, rfl⟩
        have hu := (hp t₁).mp ht
        rw [hkeep t₁ hu, hu]
  | escape =>
    by_cases hc : c = 0x5B
    · subst hc
      refine hquiet (colors t) Reading.start.state ?_ rfl rfl rfl
      unfold Terminal.recvByte
      rw [h]
      rfl
    · have hnext : Tail.escape.next c = ([.escape c hc], .none) := dif_neg hc
      refine hquiet (colors t) .ground ?_ (by rw [hnext]; rfl) (by rw [hnext]; rfl)
        (by rw [hnext]; rfl)
      unfold Terminal.recvByte
      rw [h]
      exact if_neg hc
  | csi w hw =>
    -- how far the parser has read
    obtain ⟨closed, last, room, hread, -⟩ :=
      recvBytes_arg (t := inState t Reading.start.state) Reading.room_nil rfl hw
    have hread : w.foldl Reading.step .start = .arg closed last room := hread
    have hstate : t.ansiState = (Reading.arg closed last room).state := by
      rw [h, Tail.state, Tail.reading, hread]
    by_cases hc : c = 0x6D
    · subst hc
      have hnext : (Tail.csi w hw).next 0x6D = ([.csi w hw], .none) := rfl
      refine hquiet _ .ground (recvByte_final room hstate) (by rw [hnext]; rfl) ?_ rfl
      rw [hnext]
      show ((w.foldl Reading.step .start).strings.map fun d => value d % 2 ^ 64).foldl sgr _ = _
      rw [hread]
      rfl
    · have hnext : (Tail.csi w hw).next c = ([], .csi (w ++ [c]) (notMem_snoc hw hc)) := dif_neg hc
      refine hquiet (colors t) ((Reading.arg closed last room).step c).state ?_
        (by rw [hnext]; rfl) (by rw [hnext]; rfl) ?_
      · exact recvByte_arg hstate hc
      · rw [hnext, Tail.state, Tail.reading, List.foldl_append, hread]
        rfl

/-- **A whole stream.** -/
lemma recvBytes_parse {tail : Tail} (h : t.ansiState = tail.state) (buf : List UInt8) :
    t.recvBytes buf = .ok t' ↔
      ∃ t₁, print t (shown (colors t) (parse tail buf).pieces) = .ok t₁ ∧
        t' = inState (recolor t₁ (colorsAfter (colors t) (parse tail buf).pieces))
          (parse tail buf).tail.state := by
  induction buf generalizing t tail with
  | nil =>
    have hself : inState (recolor t (colors t)) tail.state = t := by
      rw [← h]
      rfl
    constructor
    · rintro ⟨⟩
      exact ⟨_, rfl, hself.symm⟩
    · rintro ⟨t₁, ⟨⟩, rfl⟩
      exact congrArg Except.ok hself.symm
  | cons c buf ih =>
    rw [Terminal.recvBytes, run_cons_ok, parse_cons]
    simp only [shown_append, colorsAfter_append, print_append]
    set k := colorsAfter (colors t) (tail.next c).1
    set s := parse (tail.next c).2 buf
    have hstate : ∀ t₁, (inState (recolor t₁ k) (tail.next c).2.state).ansiState =
      (tail.next c).2.state := fun _ => rfl
    constructor
    · rintro ⟨t₂, h₂, hr⟩
      obtain ⟨t₁, hp, rfl⟩ := (recvByte_next h c).mp h₂
      obtain ⟨t₃, hp₃, rfl⟩ := (ih (hstate t₁)).mp hr
      obtain ⟨t₄, hp₄, hplain⟩ := print_plain (plain_eq t₁ k _) hp₃
      exact ⟨t₄, ⟨t₁, hp, hp₄⟩, eq_of_plain hplain _ _⟩
    · rintro ⟨t₄, ⟨t₁, hp, hp₄⟩, rfl⟩
      refine ⟨_, (recvByte_next h c).mpr ⟨t₁, hp, rfl⟩, (ih (hstate t₁)).mpr ?_⟩
      obtain ⟨t₃, hp₃, hplain⟩ := print_plain (plain_eq t₁ k _).symm hp₄
      exact ⟨t₃, hp₃, eq_of_plain hplain _ _⟩

/-- **The meaning of a stream.** Every byte stream splits in exactly one way. Received on the ground,
its characters are printed, each in the colours the control sequences before it leave, and nothing
else is; and the terminal is left in the colours all of them leave, with what has been begun read. -/
theorem stream_shown (h : t.ansiState = .ground) (buf : List UInt8) :
    (∃! s : Stream, s.bytes = buf) ∧ ∀ s : Stream, s.bytes = buf → ∀ t',
      t.recvBytes buf = .ok t' ↔ ∃ t₁, print t (shown (colors t) s.pieces) = .ok t₁ ∧
        t' = inState (recolor t₁ (colorsAfter (colors t) s.pieces)) s.tail.state := by
  refine ⟨⟨parse .none buf, bytes_parse .none buf, ?_⟩, ?_⟩
  · rintro s rfl
    exact (parse_bytes s).symm
  · rintro s rfl t'
    have hstate : t.ansiState = Tail.none.state := h
    rw [recvBytes_parse hstate, parse_bytes]

/-- `ESC [ 9 3 m h i ESC [ m` and a newline. -/
def greeting : List UInt8 :=
  [0x1B, 0x5B, 0x39, 0x33, 0x6D, 0x68, 0x69, 0x1B, 0x5B, 0x6D, 0x0A]

theorem stream_shown_greeting :
    ∃ t t₁, (Terminal.new (fun _ => 0) small).recvBytes greeting = .ok t ∧
      print (Terminal.new (fun _ => 0) small) [⟨0x68, 0xE6C384, 0x1A1B26⟩,
        ⟨0x69, 0xE6C384, 0x1A1B26⟩, ⟨0x0A, 0xC0C0C0, 0x1A1B26⟩] = .ok t₁ ∧
      t = inState (recolor t₁ ⟨0xC0C0C0, 0x1A1B26⟩) .ground := by
  obtain ⟨t, ht, -⟩ := call_inBounds small_usable _ (.recvBytes greeting)
    (inBounds_new (fun _ => 0) small_usable)
  obtain ⟨t₁, hp, he⟩ := ((stream_shown rfl greeting).2 (parse .none greeting) rfl t).mp ht
  exact ⟨t, t₁, ht, hp, he⟩

end OsRust.Pieces
