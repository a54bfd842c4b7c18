import Bitwire.Proofs.Locating

/-! How far a reading pulls its stream. All calls but the last give tokens, and the item of the last
call decides the outcome. Nothing after that item is asked for, so that streams which agree up to it
are read alike. -/
namespace Bitwire

/-! ## Calls -/

theorem pull_tokens_append (ts : List Token) (rest : List Item) :
    pull (ts.map .token ++ rest) ts.length = pull rest 0 := by
  induction ts with
  | nil => rfl
  | cons t ts ih => exact ih

/-- Only the end can be pulled from a stream that has run out. -/
theorem exists_cons_of_pull {xs : List Item} {x : Item} (h : pull xs 0 = x)
    (hx : x ≠ .failure .endOfInput) : ∃ rest, xs = x :: rest := by
  cases xs with
  | nil => exact absurd h.symm hx
  | cons y rest =>
    cases h
    exact ⟨rest, rfl⟩

theorem exists_cons_of_pull_token {xs : List Item} {t : Token} (h : pull xs 0 = .token t) :
    ∃ rest, xs = .token t :: rest :=
  exists_cons_of_pull h (by simp)

/-- Two streams that are related call by call take the same number of tokens side by side, and are
still related at the call after them. -/
theorem exists_tokens_of_pull {A : Item → Item → Prop} {R : Token → Token → Prop}
    (hA : ∀ t y, A (.token t) y → ∃ u, y = .token u ∧ R t u) {ts : List Token}
    {rest ys : List Item}
    (h : ∀ call ≤ ts.length, A (pull (ts.map .token ++ rest) call) (pull ys call)) :
    ∃ us rest', ys = us.map .token ++ rest' ∧ List.Forall₂ R ts us ∧
      A (pull rest 0) (pull rest' 0) := by
  induction ts generalizing ys with
  | nil => exact ⟨[], ys, rfl, .nil, h 0 (Nat.le_refl 0)⟩
  | cons t ts ih =>
    obtain ⟨u, hu, htu⟩ := hA t _ (h 0 (Nat.zero_le _))
    obtain ⟨ys, rfl⟩ := exists_cons_of_pull_token hu
    obtain ⟨us, rest', rfl, hus, hrest⟩ := ih fun call hc => h (call + 1) (Nat.succ_le_succ hc)
    exact ⟨u :: us, rest', rfl, .cons htu hus, hrest⟩

/-! ## The call that stops a reading -/

theorem Progress.halts_of_end {xs : List Item} (h : pull xs 0 = .failure .endOfInput)
    (p : Progress) (last : Int) : p.Halts last xs (p.finish last) := by
  cases xs with
  | nil => exact .finished
  | cons x rest =>
    cases h
    exact .ended

/-- What stops a reading is the first item alone. -/
theorem Progress.Halts.congr {p : Progress} {last : Int} {xs ys : List Item}
    {result : Except Failure Design} (hh : p.Halts last xs result) (h : pull xs 0 = pull ys 0) :
    p.Halts last ys result := by
  cases hh with
  | finished | ended => exact halts_of_end h.symm p last
  | failed hf =>
    obtain ⟨rest, rfl⟩ := exists_cons_of_pull h.symm (fun he => hf (Item.failure.inj he))
    exact .failed hf
  | @unexpected t _ hs =>
    obtain ⟨rest, rfl⟩ := exists_cons_of_pull_token (t := t) h.symm
    exact .unexpected hs
  | @invalid t _ _ hs =>
    obtain ⟨rest, rfl⟩ := exists_cons_of_pull_token (t := t) h.symm
    exact .invalid hs
  | @extra t _ hs =>
    obtain ⟨rest, rfl⟩ := exists_cons_of_pull_token (t := t) h.symm
    exact .extra hs

/-- What an outcome that a reading comes to by itself says of the item of its last call. -/
def Settles (before : List Token) (last : Item) : Except Failure Design → Prop
  | .ok _ => last = .failure .endOfInput
  | .error (.source (.unexpected none position _)) =>
    last = .failure .endOfInput ∧ position = endOf 0 before
  | .error (.source (.unexpected (some t) position _)) => last = .token t ∧ position = t.start
  | .error (.source (.extraToken t)) => last = .token t
  -- the high bound stands three items before the bracket, and the low one directly before it
  | .error (.source (.invalidToken position)) =>
    ∃ earlier word left high colon low right, last = .token right ∧
      before = earlier ++ [word, left, high, colon, low] ∧
      [word, left, high, colon, low, right].map Token.kind =
        [.bitWord, .openBracket, .literal, .colon, .literal, .closeBracket] ∧
      (position = high.start ∨ position = low.start)
  | .error _ => False

/-- How the item of the last call decides the outcome, after the tokens of the calls before it. A
failure of the stream is passed on, whatever it says, unless there is a bad character in it; the end
and the tokens are judged by the reading itself. -/
structure Decides (before : List Token) (last : Item) (result : Except Failure Design) :
    Prop where
  badCharacter : ∀ f c, last = .failure f → f.badCharacter? = some c →
    result = .error (.source (.invalidCharacter c))
  passedOn : ∀ f, last = .failure f → f ≠ .endOfInput → f.badCharacter? = none →
    result = .error f
  settled : (∀ f, last = .failure f → f = .endOfInput) → Settles before last result

theorem Settles.decides {before : List Token} {last : Item} {result : Except Failure Design}
    (h : Settles before last result) (hlast : ∀ f, last = .failure f → f = .endOfInput) :
    Decides before last result where
  badCharacter f c hf hc := by
    cases hlast f hf
    cases hc
  passedOn f hf hne := absurd (hlast f hf) hne
  settled _ := h

theorem Progress.Halts.decides {p : Progress} {before : List Token} {xs : List Item}
    {result : Except Failure Design} (hp : p.Covers before)
    (hh : p.Halts (endOf 0 before) xs result) : Decides before (pull xs 0) result := by
  cases hh with
  | finished | ended =>
    have hend : Settles before (.failure .endOfInput) (p.finish (endOf 0 before)) := by
      cases p with
      | done d => rfl
      | _ => exact ⟨rfl, rfl⟩
    refine hend.decides ?_
    rintro f ⟨⟩
    rfl
  | @failed f rest hf =>
    refine ⟨?_, ?_, fun h => absurd (h f rfl) hf⟩
    · rintro g c ⟨⟩ hc
      rw [Failure.surface, hc]
    · rintro g ⟨⟩ - hc
      rw [Failure.surface, hc]
  | unexpected hs => exact Settles.decides ⟨rfl, rfl⟩ nofun
  | @invalid right rest position hs =>
    obtain ⟨b, high, low, rfl, hright, hb⟩ := step_eq_invalid_iff.mp hs
    obtain ⟨earlier, word, left, colon, -, hbefore, hk⟩ := hp
    have hkinds : [word, left, high, colon, low, right].map Token.kind =
        [.bitWord, .openBracket, .literal, .colon, .literal, .closeBracket] := by
      simpa [hright] using hk
    exact Settles.decides ⟨earlier, word, left, high, colon, low, right, rfl, hbefore, hkinds,
      position_of_ofBounds_error hb⟩ nofun
  | @extra t rest hs =>
    have hextra : Settles before (.token t) (.error (.source (.extraToken t))) := rfl
    exact hextra.decides nofun

/-- A reading makes one call after the tokens it takes. The item of that call decides the outcome,
and any stream that gives the same up to there is read with the same outcome and as many calls. -/
theorem read_decided_by_last_call (stream : List Item) :
    ∃ before : List Token, (Design.read stream).pulled = before.length + 1 ∧
      (∃ rest, stream = before.map .token ++ rest) ∧
      Decides before (pull stream before.length) (Design.read stream).result ∧
      ∀ stream' : List Item, (∀ call ≤ before.length, pull stream call = pull stream' call) →
        Design.read stream' = Design.read stream := by
  obtain ⟨before, rest, p, result, rfl, ha, hh, hr⟩ := exists_read_eq stream
  rw [hr]
  refine ⟨before, rfl, ⟨rest, rfl⟩, ?_, ?_⟩
  · rw [pull_tokens_append]
    exact hh.decides (covers_of_advance ha)
  · intro stream' hsame
    obtain ⟨us, rest', rfl, hus, hrest⟩ := exists_tokens_of_pull (A := Eq) (R := Eq)
      (fun t y h => ⟨t, h.symm, rfl⟩) hsame
    rw [List.forall₂_eq_eq_eq] at hus
    subst hus
    rw [Design.read, Progress.run_append ha, Progress.run_of_halts (hh.congr hrest), Nat.zero_add]

/-- A failure of the stream can be an error that a reading might have come to by itself. It is
passed on all the same, and then the last call gave neither the end nor a token. -/
theorem read_passes_on_source_errors :
    let t : Token := ⟨0, 3, .topWord, []⟩
    let stream (error : SourceError) : List Item := [.failure (.source error)]
    Design.read (stream (.unexpected none 5 [])) = ⟨.error (.source (.unexpected none 5 [])), 1⟩ ∧
      pull (stream (.unexpected none 5 [])) 0 ≠ .failure .endOfInput ∧
      Design.read (stream (.extraToken t)) = ⟨.error (.source (.extraToken t)), 1⟩ ∧
      pull (stream (.extraToken t)) 0 ≠ .token t ∧
      Design.read (stream (.invalidToken 5)) = ⟨.error (.source (.invalidToken 5)), 1⟩ ∧
      ∀ right, pull (stream (.invalidToken 5)) 0 ≠ .token right :=
  ⟨rfl, nofun, rfl, nofun, rfl, nofun⟩

end Bitwire
