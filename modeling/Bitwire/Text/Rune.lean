import Bitwire.Bytes
import Bitwire.Pieces
import Bitwire.Text.Category

/-! Bytes read as UTF-8, one rune after the other. A byte that starts no valid sequence is a
rune of its own, so that every list of bytes has a reading and no byte is lost. -/
namespace Bitwire.Text

inductive Rune
  | scalar (c : Char)
  | stray (b : UInt8)
  deriving DecidableEq, Repr

namespace Rune

def bytes : Rune → Bytes
  | scalar c => String.utf8EncodeChar c
  | stray b => [b]

def width (r : Rune) : Nat := r.bytes.length

/-- A stray byte counts as the replacement character. -/
def char : Rune → Char
  | scalar c => c
  | stray _ => '�'

/-- The rune at the head of the bytes `b :: rest`. -/
def first (b : UInt8) (rest : Bytes) : Rune :=
  match (b :: rest.take 3).toByteArray.utf8DecodeChar? 0 with
  | some c => scalar c
  | none => stray b

def isBlank (r : Rune) : Bool := Text.isBlank r.char

theorem bytes_ne_nil (r : Rune) : r.bytes ≠ [] := by
  cases r <;> simp [bytes]

theorem isPrefix_bytes_first (b : UInt8) (rest : Bytes) : (first b rest).bytes <+: b :: rest := by
  unfold first
  split
  · next c hc =>
    obtain ⟨l, hl⟩ := ByteArray.exists_of_utf8DecodeChar?_eq_some hc
    have h : b :: rest.take 3 = String.utf8EncodeChar c ++ l.data.toList := by
      simpa using congrArg (·.data.toList) hl
    exact ⟨l.data.toList ++ rest.drop 3, by simp [bytes, ← List.append_assoc, ← h]⟩
  · exact ⟨rest, rfl⟩

theorem bytes_first (b : UInt8) (rest : Bytes) :
    (first b rest).bytes = b :: rest.take ((first b rest).width - 1) := by
  have hp := List.prefix_iff_eq_take.mp (isPrefix_bytes_first b rest)
  obtain ⟨n, hn⟩ := Nat.exists_eq_add_one_of_ne_zero
    (mt List.length_eq_zero_iff.mp (bytes_ne_nil (first b rest)))
  rw [hn, List.take_succ_cons] at hp
  rwa [width, hn, Nat.add_sub_cancel]

end Rune

def runes (s : Bytes) : List Rune := pieces Rune.first (fun r => r.width - 1) s

def encode (rs : List Rune) : Bytes := rs.flatMap Rune.bytes

theorem encode_runes (s : Bytes) : encode (runes s) = s :=
  flatMap_pieces _ _ _ Rune.bytes_first s

/-- Removes the white space at both ends. -/
def trim (s : Bytes) : Bytes :=
  let front := (runes s).dropWhile Rune.isBlank
  encode (front.reverse.dropWhile Rune.isBlank).reverse

end Bitwire.Text
