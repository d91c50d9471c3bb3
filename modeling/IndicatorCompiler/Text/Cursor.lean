/-!
# Positions and cursors

A source text is a list of characters.  Offsets into it count UTF-8 bytes; lines and columns start
at one, and a column counts characters.  A `Cursor` is the unread end of a text together with the
offset and the position at which it starts, so that every token can say where it stands.

`Cursor.At` ties a cursor to its text: it says that the cursor is what is left after a stretch of
the text has been read.  Every movement below keeps it.
-/

namespace IndicatorCompiler.Text

/-- The number of UTF-8 bytes of a text. -/
def byteLength : List Char → Nat
  | [] => 0
  | c :: rest => c.utf8Size + byteLength rest

@[simp] theorem byteLength_nil : byteLength [] = 0 := rfl

@[simp] theorem byteLength_cons (c : Char) (rest : List Char) :
    byteLength (c :: rest) = c.utf8Size + byteLength rest := rfl

theorem byteLength_append (left right : List Char) :
    byteLength (left ++ right) = byteLength left + byteLength right := by
  induction left with
  | nil => simp
  | cons c rest ih => simp [ih, Nat.add_assoc]

/-- A line and a column, both counted from one. -/
structure Position where
  line : Nat
  column : Nat
  deriving DecidableEq, Repr

namespace Position

/-- Where every text begins. -/
def start : Position := ⟨1, 1⟩

/-- The position after one more character: a line feed opens a line. -/
def after (p : Position) (c : Char) : Position :=
  if c = '\n' then ⟨p.line + 1, 1⟩ else ⟨p.line, p.column + 1⟩

/-- The position after a stretch of text. -/
def advance (p : Position) (text : List Char) : Position := text.foldl after p

theorem advance_append (p : Position) (left right : List Char) :
    p.advance (left ++ right) = (p.advance left).advance right := by
  simp [advance]

end Position

/-- The position of the first character that starts at byte `offset` or later. -/
def positionAt (source : List Char) (offset : Nat) : Position :=
  go source 0 .start
where
  /-- `read` bytes have been passed and the reader stands at `p`. -/
  go : List Char → Nat → Position → Position
    | [], _, p => p
    | c :: rest, read, p => if offset ≤ read then p else go rest (read + c.utf8Size) (p.after c)

/-- The unread end of a text, and where it starts. -/
structure Cursor where
  rest : List Char
  offset : Nat
  position : Position
  deriving DecidableEq, Repr

namespace Cursor

/-- The cursor in front of a whole text. -/
def ofText (source : List Char) : Cursor := ⟨source, 0, .start⟩

/-- `c` is what is left of `source` after some stretch of it has been read. -/
def At (source : List Char) (c : Cursor) : Prop :=
  ∃ before, source = before ++ c.rest ∧ c.offset = byteLength before ∧
    c.position = Position.start.advance before

theorem at_ofText (source : List Char) : At source (ofText source) :=
  ⟨[], rfl, rfl, rfl⟩

/-- Read one character, if there is one. -/
def next (c : Cursor) : Cursor :=
  match c.rest with
  | [] => c
  | ch :: rest => ⟨rest, c.offset + ch.utf8Size, c.position.after ch⟩

theorem At.next {source : List Char} {c : Cursor} (h : At source c) : At source c.next := by
  rcases c with ⟨_ | ⟨ch, rest⟩, offset, p⟩
  · exact h
  · obtain ⟨before, hsource, hoffset, hposition⟩ := h
    refine ⟨before ++ [ch], by simpa [Cursor.next] using hsource, ?_, ?_⟩
    · simp [Cursor.next, byteLength_append] at hoffset ⊢
      exact hoffset
    · simp [Cursor.next, Position.advance] at hposition ⊢
      rw [hposition]

/-- Read `n` characters, or up to the end. -/
def skip : Nat → Cursor → Cursor
  | 0, c => c
  | n + 1, c => skip n c.next

theorem rest_skip (n : Nat) (c : Cursor) : (skip n c).rest = c.rest.drop n := by
  induction n generalizing c with
  | zero => rfl
  | succ n ih =>
    rcases c with ⟨_ | ⟨ch, rest⟩, offset, p⟩
    · simp [skip, ih, next]
    · simp [skip, ih, next]

theorem At.skip {source : List Char} (n : Nat) {c : Cursor} (h : At source c) :
    At source (c.skip n) := by
  induction n generalizing c with
  | zero => exact h
  | succ n ih => exact ih h.next

/-- Read on while characters satisfy `p`. -/
def skipWhile (p : Char → Bool) (c : Cursor) : Cursor :=
  go c.rest c.offset c.position
where
  /-- The cursor given by its three parts. -/
  go : List Char → Nat → Position → Cursor
    | [], offset, position => ⟨[], offset, position⟩
    | ch :: rest, offset, position =>
      if p ch then go rest (offset + ch.utf8Size) (position.after ch)
      else ⟨ch :: rest, offset, position⟩

theorem rest_skipWhile (p : Char → Bool) (c : Cursor) :
    (c.skipWhile p).rest = c.rest.dropWhile p := by
  rcases c with ⟨rest, offset, position⟩
  simp only [skipWhile]
  induction rest generalizing offset position with
  | nil => rfl
  | cons ch rest ih =>
    by_cases h : p ch = true
    · simp [skipWhile.go, h, ih]
    · simp [skipWhile.go, h]

theorem At.skipWhile {source : List Char} (p : Char → Bool) {c : Cursor} (h : At source c) :
    At source (c.skipWhile p) := by
  rcases c with ⟨rest, offset, position⟩
  simp only [Cursor.skipWhile]
  induction rest generalizing offset position with
  | nil => exact h
  | cons ch rest ih =>
    by_cases hp : p ch = true
    · simpa [skipWhile.go, hp] using ih _ _ h.next
    · simpa [skipWhile.go, hp] using h

end Cursor

end IndicatorCompiler.Text
