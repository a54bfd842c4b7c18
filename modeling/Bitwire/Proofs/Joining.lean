import Bitwire.Proofs.Lines

/-! Sources are lexed line by line. No lexeme goes on past a newline or looks beyond it, and no bytes
before a newline are decoded otherwise because it follows. So the items of pieces that are joined by
newlines are the items of each piece alone, moved to where the piece stands. -/
namespace Bitwire

open Text

/-! ## Moving items -/

def Token.shift (offset : Nat) (t : Token) : Token :=
  { t with start := t.start + offset, stop := t.stop + offset }

/-- Of the failures, only bad characters are met in a source. -/
def Failure.shift (offset : Nat) : Failure → Failure
  | badCharacter c => badCharacter { c with position := c.position + offset }
  | f => f

def Item.shift (offset : Nat) : Item → Item
  | token t => token (t.shift offset)
  | failure f => failure (f.shift offset)

/-- Moving by nothing changes nothing, and moving twice is moving by the sum. -/
structure Moves {α : Type} (shift : Nat → α → α) : Prop where
  zero : ∀ x, shift 0 x = x
  add : ∀ m n x, shift n (shift m x) = shift (m + n) x

theorem Token.moves : Moves Token.shift where
  zero t := by simp [shift]
  add m n t := by simp [shift, Int.add_assoc]

theorem Failure.moves : Moves Failure.shift where
  zero f := by cases f <;> simp [shift]
  add m n f := by cases f <;> simp [shift, Int.add_assoc]

theorem Item.moves : Moves Item.shift where
  zero x := by
    cases x with
    | token t => exact congrArg token (Token.moves.zero t)
    | failure f => exact congrArg failure (Failure.moves.zero f)
  add m n x := by
    cases x with
    | token t => exact congrArg token (Token.moves.add m n t)
    | failure f => exact congrArg failure (Failure.moves.add m n f)

theorem Lexeme.item?_add (l : Lexeme) (start offset : Nat) :
    l.item? (start + offset) = (l.item? start).map (Item.shift offset) := by
  unfold item?
  cases l.shape with
  | blank | comment => rfl
  | token kind =>
    simp only [Option.map_some, Item.shift, Token.shift]
    push_cast
    simp [Int.add_right_comm]
  | bad => cases l.runes.head? <;> simp [Item.shift, Failure.shift]

theorem itemsFrom_add (start offset : Nat) (ls : List Lexeme) :
    itemsFrom (start + offset) ls = (itemsFrom start ls).map (Item.shift offset) := by
  induction ls generalizing start with
  | nil => rfl
  | cons l ls ih =>
    simp only [itemsFrom, l.item?_add start offset]
    rw [Nat.add_right_comm, ih]
    cases l.item? start <;> rfl

theorem itemsFrom_append (start : Nat) (ls ms : List Lexeme) :
    itemsFrom start (ls ++ ms) =
      itemsFrom start ls ++ itemsFrom (start + (ls.flatMap Lexeme.bytes).length) ms := by
  induction ls generalizing start with
  | nil => rfl
  | cons l ls ih =>
    have hwidth : start + ((l :: ls).flatMap Lexeme.bytes).length =
        start + l.width + (ls.flatMap Lexeme.bytes).length := by
      rw [List.flatMap_cons, List.length_append, Lexeme.width]
      omega
    simp only [List.cons_append, itemsFrom, ih, hwidth]
    cases l.item? start <;> rfl

/-! ## Cutting in front of a newline -/

/-- Pieces that do not look at what comes after a list are the same whether it comes or not. -/
theorem pieces_append {α β : Type} {head : α → List α → β} {extra : β → Nat} {tail : List α}
    (hhead : ∀ x xs, head x (xs ++ tail) = head x xs)
    (hextra : ∀ x xs, extra (head x xs) ≤ xs.length) (xs : List α) :
    pieces head extra (xs ++ tail) = pieces head extra xs ++ pieces head extra tail := by
  induction h : xs.length using Nat.strongRecOn generalizing xs with
  | ind n ih =>
    cases xs with
    | nil => simp
    | cons x xs =>
      rw [List.cons_append, pieces_cons, pieces_cons, hhead,
        List.drop_append_of_le_length (hextra x xs),
        ih (xs.drop (extra (head x xs))).length (by simp at h ⊢; omega) _ rfl, List.cons_append]

theorem Lexeme.length_runes_first_le (r : Rune) (rest : List Rune) :
    (first r rest).runes.length - 1 ≤ rest.length := by
  have h := congrArg List.length (runes_first r rest)
  rw [List.length_cons, List.length_take] at h
  omega

/-- Which lexeme comes next is settled before the next newline. -/
theorem Lexeme.first_append_newline (r : Rune) (rest after : List Rune) :
    first r (rest ++ .scalar '\n' :: after) = first r rest := by
  cases hb : r.isBlank with
  | true => simp [first, hb]
  | false =>
    have hr : r ≠ .scalar '\n' := by
      rintro rfl
      exact absurd hb (by decide)
    have hhead : (rest ++ .scalar '\n' :: after).head? = some r ↔ rest.head? = some r := by
      cases rest with
      | nil => simp [hr.symm]
      | cons x rest => rfl
    have hcomment : (rest ++ .scalar '\n' :: after).takeWhile (· != .scalar '\n') =
        rest.takeWhile (· != .scalar '\n') := takeWhile_append_stop (by simp) _ _
    have hword : (rest ++ .scalar '\n' :: after).takeWhile isWordPart = rest.takeWhile isWordPart :=
      takeWhile_append_stop (by decide) _ _
    have hdigits : (rest ++ .scalar '\n' :: after).takeWhile isDigit = rest.takeWhile isDigit :=
      takeWhile_append_stop (by decide) _ _
    simp only [first, hhead, hcomment, hword, hdigits]

theorem lexemes_append_newline (s after : Bytes) :
    lexemes (s ++ newline :: after) =
      lexemes s ++ ⟨.blank, [.scalar '\n']⟩ :: lexemes after := by
  have hblank : Lexeme.first (.scalar '\n') (runes after) = ⟨.blank, [.scalar '\n']⟩ := rfl
  unfold lexemes
  rw [runes_append_newline, pieces_append
    (fun r rest => Lexeme.first_append_newline r rest (runes after)) Lexeme.length_runes_first_le,
    pieces_cons, hblank]
  rfl

/-! ## Joined pieces -/

/-- A reading of sources whose results, for two pieces joined by a newline, are those of the first
and then those of the second, moved past the first and the newline. -/
def LineLocal {α : Type} (read : Bytes → List α) (shift : Nat → α → α) : Prop :=
  ∀ s after, read (s ++ newline :: after) = read s ++ (read after).map (shift (s.length + 1))

/-- What is read from each piece alone, where each piece stands one byte after the one before. -/
def readJoined {α : Type} (read : Bytes → List α) (shift : Nat → α → α) :
    (start : Nat) → List Bytes → List α
  | _, [] => []
  | start, s :: rest =>
    (read s).map (shift start) ++ readJoined read shift (start + s.length + 1) rest

theorem LineLocal.map_shift_intercalate {α : Type} {read : Bytes → List α}
    {shift : Nat → α → α} (h : LineLocal read shift) (hm : Moves shift) (hnil : read [] = [])
    (start : Nat) (ss : List Bytes) :
    (read ([newline].intercalate ss)).map (shift start) = readJoined read shift start ss := by
  induction ss generalizing start with
  | nil => simp [readJoined, hnil]
  | cons s ss ih =>
    cases ss with
    | nil => simp [readJoined]
    | cons s' ss =>
      have hcomp : shift start ∘ shift (s.length + 1) = shift (start + s.length + 1) := by
        funext x
        rw [Function.comp_apply, hm.add, Nat.add_comm, Nat.add_assoc]
      rw [List.intercalate_cons_cons, List.append_assoc, List.singleton_append, h,
        List.map_append, List.map_map, hcomp, ih]
      rfl

theorem LineLocal.intercalate {α : Type} {read : Bytes → List α} {shift : Nat → α → α}
    (h : LineLocal read shift) (hm : Moves shift) (hnil : read [] = []) (ss : List Bytes) :
    read ([newline].intercalate ss) = readJoined read shift 0 ss := by
  have hid : shift 0 = id := funext hm.zero
  simpa [hid] using h.map_shift_intercalate hm hnil 0 ss

/-- A part of the results is read line by line as well, if being in it does not depend on places. -/
theorem LineLocal.filterMap {α β : Type} {read : Bytes → List α} {shift : Nat → α → α}
    {shift' : Nat → β → β} {part : α → Option β} (h : LineLocal read shift)
    (hpart : ∀ n x, part (shift n x) = (part x).map (shift' n)) :
    LineLocal (fun s => (read s).filterMap part) shift' := by
  intro s after
  have hcomp (n : Nat) : part ∘ shift n = fun x => (part x).map (shift' n) := funext (hpart n)
  simp only [h s after, List.filterMap_append, List.filterMap_map, List.map_filterMap, hcomp]

theorem items_lineLocal : LineLocal items Item.shift := by
  intro s after
  have hwidth : (Lexeme.mk .blank [.scalar '\n']).width = 1 := rfl
  rw [items, lexemes_append_newline, itemsFrom_append, flatMap_bytes_lexemes, items, items,
    ← itemsFrom_add]
  simp only [itemsFrom, Lexeme.item?, hwidth, Nat.zero_add]

theorem tokens_lineLocal : LineLocal tokens Token.shift :=
  items_lineLocal.filterMap fun _ x => by cases x <;> rfl

theorem lexicalFailures_lineLocal : LineLocal lexicalFailures Failure.shift :=
  items_lineLocal.filterMap fun _ x => by cases x <;> rfl

/-- Lexing is local to lines: the items of two pieces joined by a newline are the items of the first,
then those of the second where it stands, whatever bytes the pieces hold. So any number of pieces that
are joined by newlines can be lexed one by one, for their items as for the tokens and failures alone. -/
theorem lexing_lineLocal :
    (LineLocal items Item.shift ∧ LineLocal tokens Token.shift ∧
      LineLocal lexicalFailures Failure.shift) ∧
    ∀ ss : List Bytes, items ([newline].intercalate ss) = readJoined items Item.shift 0 ss ∧
      tokens ([newline].intercalate ss) = readJoined tokens Token.shift 0 ss ∧
      lexicalFailures ([newline].intercalate ss) =
        readJoined lexicalFailures Failure.shift 0 ss := by
  refine ⟨⟨items_lineLocal, tokens_lineLocal, lexicalFailures_lineLocal⟩, fun ss => ⟨?_, ?_, ?_⟩⟩
  · exact items_lineLocal.intercalate Item.moves rfl ss
  · exact tokens_lineLocal.intercalate Token.moves rfl ss
  · exact lexicalFailures_lineLocal.intercalate Failure.moves rfl ss

end Bitwire
