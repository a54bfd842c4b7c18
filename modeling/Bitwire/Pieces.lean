/-! Cutting a list into pieces from the left. The piece at the head of `x :: xs` is
`head x xs`; it covers `x` and `extra` more elements, and the next piece starts after them. -/
namespace Bitwire

variable {α β : Type}

/-- The pieces that start after `skip` elements. -/
def piecesAfter (head : α → List α → β) (extra : β → Nat) : (skip : Nat) → List α → List β
  | _, [] => []
  | 0, x :: xs => head x xs :: piecesAfter head extra (extra (head x xs)) xs
  | skip + 1, _ :: xs => piecesAfter head extra skip xs

def pieces (head : α → List α → β) (extra : β → Nat) : List α → List β :=
  piecesAfter head extra 0

theorem piecesAfter_eq_drop (head : α → List α → β) (extra : β → Nat) (skip : Nat)
    (xs : List α) : piecesAfter head extra skip xs = pieces head extra (xs.drop skip) := by
  induction xs generalizing skip with
  | nil => simp [pieces, piecesAfter]
  | cons x xs ih =>
    cases skip with
    | zero => rfl
    | succ skip => simpa [piecesAfter] using ih skip

@[simp] theorem pieces_nil (head : α → List α → β) (extra : β → Nat) :
    pieces head extra [] = [] := rfl

theorem pieces_cons (head : α → List α → β) (extra : β → Nat) (x : α) (xs : List α) :
    pieces head extra (x :: xs) =
      head x xs :: pieces head extra (xs.drop (extra (head x xs))) := by
  rw [← piecesAfter_eq_drop]
  rfl

/-- Nothing is lost: when each piece holds the elements it covers, the pieces make up the list. -/
theorem flatMap_pieces (head : α → List α → β) (extra : β → Nat) (content : β → List α)
    (hc : ∀ x xs, content (head x xs) = x :: xs.take (extra (head x xs))) (xs : List α) :
    (pieces head extra xs).flatMap content = xs := by
  induction h : xs.length using Nat.strongRecOn generalizing xs with
  | ind n ih =>
    cases xs with
    | nil => simp
    | cons x xs =>
      rw [pieces_cons, List.flatMap_cons, hc,
        ih (xs.drop (extra (head x xs))).length (by simp at h ⊢; omega) _ rfl]
      simp

end Bitwire
