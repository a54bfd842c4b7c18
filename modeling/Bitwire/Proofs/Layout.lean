import Bitwire.Proofs.Lexing
import Bitwire.Proofs.Partition
import Mathlib.Data.List.Chain

/-! Tokens written down one after the other, with white space and comments around them as one
likes. They are read back, each where it was written, exactly when no two neighbours that would
run into one another stand side by side. -/
namespace Bitwire

open Text
open String (utf8EncodeChar)

/-! ## Layouts -/

/-- White space and comments, each comment with its newline. -/
inductive IsGap : Bytes → Prop
  | nil : IsGap []
  | blank {c : Char} {gap : Bytes} :
      isBlank c = true → IsGap gap → IsGap (utf8EncodeChar c ++ gap)
  | comment {body gap : Bytes} :
      newline ∉ body → IsGap gap → IsGap (utf8 "//" ++ body ++ newline :: gap)

/-- At the end of a text a comment needs no newline. -/
inductive IsLastGap : Bytes → Prop
  | closed {gap : Bytes} : IsGap gap → IsLastGap gap
  | unclosed {gap body : Bytes} :
      IsGap gap → newline ∉ body → IsLastGap (gap ++ (utf8 "//" ++ body))

/-- What a token of some source can say. -/
inductive Writable : Key → Prop
  | name {text : Bytes} : IsName text → Writable (.identifier, text)
  | literal {text : Bytes} : IsDigits text → Writable (.literal, text)
  | keyword {kind : Kind} : kind ∈ Kind.keywords → Writable (kind, [])
  | symbol {kind : Kind} : kind ∈ Kind.symbols → Writable (kind, [])

def spell (key : Key) : Bytes := if key.1.hasText then key.2 else key.1.spelling

/-- A token to be written, with the gap before it. -/
structure Entry where
  gap : Bytes
  key : Key
  isGap : IsGap gap
  writable : Writable key

def Entry.text (e : Entry) : Bytes := e.gap ++ spell e.key

structure Layout where
  entries : List Entry
  last : Bytes
  isLastGap : IsLastGap last

namespace Layout

def text (l : Layout) : Bytes := l.entries.flatMap Entry.text ++ l.last

/-- The tokens of entries that are written from an offset on, with the bytes that they take up. -/
def tokensFrom : (start : Nat) → List Entry → List Token
  | _, [] => []
  | start, e :: rest =>
    let first := start + e.gap.length
    ⟨first, first + (spell e.key).length, e.key.1, e.key.2⟩ ::
      tokensFrom (first + (spell e.key).length) rest

def tokens (l : Layout) : List Token := tokensFrom 0 l.entries

end Layout

def IsWord (kind : Kind) : Prop := kind = .identifier ∨ kind ∈ Kind.keywords

instance (kind : Kind) : Decidable (IsWord kind) := inferInstanceAs (Decidable (_ ∨ _))

/-- A word takes in what follows it if that is a word or a literal, and a literal takes in a
literal. -/
def Glue (kind next : Kind) : Prop :=
  IsWord kind ∧ (IsWord next ∨ next = .literal) ∨ kind = .literal ∧ next = .literal

/-- Neighbours that do not run into one another. -/
def Apart (e next : Entry) : Prop := next.gap = [] → ¬ Glue e.key.1 next.key.1

/-! ## Where a token ends -/

/-- What follows does not go on with a token of the kind. -/
def StopsAt (kind : Kind) (after : Bytes) : Prop :=
  (IsWord kind → NotNext wordPart after) ∧ (kind = .literal → NotNext isDecimal after)

theorem not_word_of_mem_symbols {kind : Kind} (h : kind ∈ Kind.symbols) :
    ¬ IsWord kind ∧ kind ≠ .literal := by
  have hs : ∀ k ∈ Kind.symbols, ¬ IsWord k ∧ k ≠ .literal := by decide
  exact hs kind h

theorem literal_notMem_keywords {kind : Kind} (h : kind ∈ Kind.keywords) : kind ≠ .literal := by
  rintro rfl
  exact absurd h (by decide)

theorem spell_bare {kind : Kind} (h : kind ∈ Kind.keywords ++ Kind.symbols) (text : Bytes) :
    spell (kind, text) = kind.spelling := by
  simp [spell, Kind.hasText_bare h]

theorem Spelled.spell_eq {kind : Kind} {text after : Bytes} (h : Spelled kind text after) :
    spell (kind, if kind.hasText then text else []) = text := by
  cases h with
  | name | literal => rfl
  | keyword hk _ => exact spell_bare (List.mem_append_left _ hk) _
  | symbol hk => exact spell_bare (List.mem_append_right _ hk) _

theorem Spelled.writable {kind : Kind} {text after : Bytes} (h : Spelled kind text after) :
    Writable (kind, if kind.hasText then text else []) := by
  cases h with
  | name ht _ => exact .name ht
  | literal ht _ => exact .literal ht
  | keyword hk _ =>
    rw [Kind.hasText_bare (List.mem_append_left _ hk)]
    exact .keyword hk
  | symbol hk =>
    rw [Kind.hasText_bare (List.mem_append_right _ hk)]
    exact .symbol hk

theorem Spelled.stopsAt {kind : Kind} {text after : Bytes} (h : Spelled kind text after) :
    StopsAt kind after := by
  cases h with
  | name _ hn => exact ⟨fun _ => hn, fun h => (nomatch h)⟩
  | keyword hk hn => exact ⟨fun _ => hn, fun h => absurd h (literal_notMem_keywords hk)⟩
  | literal _ hn => exact ⟨fun h => absurd h (by decide), fun _ => hn⟩
  | symbol hk =>
    obtain ⟨hw, hl⟩ := not_word_of_mem_symbols hk
    exact ⟨fun h => absurd h hw, fun h => absurd h hl⟩

theorem Writable.spelled {key : Key} (hw : Writable key) {after : Bytes}
    (h : StopsAt key.1 after) : Spelled key.1 (spell key) after := by
  obtain ⟨hword, hliteral⟩ := h
  cases hw with
  | name ht => exact .name ht (hword (Or.inl rfl))
  | literal ht => exact .literal ht (hliteral rfl)
  | keyword hk =>
    rw [spell_bare (List.mem_append_left _ hk)]
    exact .keyword hk (hword (Or.inr hk))
  | symbol hk =>
    rw [spell_bare (List.mem_append_right _ hk)]
    exact .symbol hk

theorem text_of_writable {key : Key} (hw : Writable key) :
    (if key.1.hasText then spell key else []) = key.2 := by
  cases hw with
  | name | literal => rfl
  | keyword hk => simp [Kind.hasText_bare (List.mem_append_left _ hk)]
  | symbol hk => simp [Kind.hasText_bare (List.mem_append_right _ hk)]

theorem notNext_char_iff {p : Char → Bool} {c : Char} {rest : Bytes} :
    NotNext p (utf8EncodeChar c ++ rest) ↔ p c = false :=
  ⟨fun h => h c rest rfl, fun h => notNext_char h rest⟩

theorem wordPart_of_symbol {c : Char} {kind : Kind}
    (h : Kind.ofSymbol? c = some kind ∨ Kind.ofDouble? c = some kind) : wordPart c = false := by
  rcases h with h | h
  · unfold Kind.ofSymbol? at h
    split at h
    case h_15 => cases h
    all_goals decide
  · unfold Kind.ofDouble? at h
    split at h
    case h_3 => cases h
    all_goals decide

theorem wordStart_not_decimal {c : Char} (h : wordStart c = true) : isDecimal c = false := by
  cases hd : isDecimal c with
  | false => rfl
  | true =>
    rw [(isDecimal_spec hd).2.2] at h
    cases h

/-- What a token starts with tells which tokens would take it in. -/
theorem exists_head_spell {key : Key} (hw : Writable key) :
    ∃ c rest, spell key = utf8EncodeChar c ++ rest ∧
      (wordPart c = true ↔ IsWord key.1 ∨ key.1 = .literal) ∧
      (isDecimal c = true ↔ key.1 = .literal) := by
  cases hw with
  | name ht =>
    obtain ⟨⟨c, cs, rfl, hc, -⟩, -⟩ := ht
    refine ⟨c, encodeChars cs, rfl, ?_, ?_⟩
    · simp [wordPart_of_wordStart hc, IsWord]
    · simp [wordStart_not_decimal hc]
  | literal ht =>
    obtain ⟨c, cs, rfl, hcs⟩ := ht
    have hc := hcs c List.mem_cons_self
    have hp : wordPart c = true := by
      by_contra hn
      rw [isDecimal_le_wordPart (Bool.eq_false_iff.mpr hn)] at hc
      cases hc
    exact ⟨c, encodeChars cs, rfl, by simp [hp], by simp [hc]⟩
  | @keyword kind hk =>
    obtain ⟨-, c, cs, he, hc, -⟩ := keyword_spec hk
    rw [spell_bare (List.mem_append_left _ hk), he]
    refine ⟨c, encodeChars cs, rfl, ?_, ?_⟩
    · simp [wordPart_of_wordStart hc, IsWord, hk]
    · simp [wordStart_not_decimal hc, literal_notMem_keywords hk]
  | @symbol kind hk =>
    obtain ⟨c, -, -, -, hd, hs⟩ := symbol_spec hk
    obtain ⟨hw, hl⟩ := not_word_of_mem_symbols hk
    have hp : wordPart c = false :=
      wordPart_of_symbol (hs.imp (fun h => h.1) (fun h => h.2.1))
    have he : ∃ rest, kind.spelling = utf8EncodeChar c ++ rest := by
      rcases hs with ⟨-, he⟩ | ⟨-, -, he⟩
      · exact ⟨[], by rw [he, List.append_nil]⟩
      · exact ⟨_, he⟩
    obtain ⟨rest, he⟩ := he
    rw [spell_bare (List.mem_append_right _ hk)]
    exact ⟨c, rest, he, by simp [hp, hw, hl], by simp [hd, hl]⟩

/-! ## Gaps -/

theorem IsGap.gap {gap : Bytes} (h : IsGap gap) (after : Bytes) : Gap gap after := by
  induction h with
  | nil => exact .nil
  | blank hc _ ih => exact .cons (.blank hc) ih
  | @comment body gap hb _ ih =>
    have hnewline : utf8EncodeChar '\n' = [newline] := rfl
    have hrest : Gap (newline :: gap) after := by
      rw [← List.singleton_append, ← hnewline]
      exact .cons (.blank (by decide)) ih
    exact .cons (.comment hb (by simp)) hrest

theorem Gap.append {gap gap' after : Bytes} (h : Gap gap (gap' ++ after)) (h' : Gap gap' after) :
    Gap (gap ++ gap') after := by
  generalize ha : gap' ++ after = rest at h
  induction h with
  | nil => exact h'
  | cons ht _ ih =>
    subst ha
    rw [List.append_assoc]
    exact .cons (by rwa [List.append_assoc]) (ih rfl)

theorem IsLastGap.gap {gap : Bytes} (h : IsLastGap gap) : Gap gap [] := by
  cases h with
  | closed hg => exact hg.gap []
  | @unclosed gap body hg hb =>
    have hopen : Gap (utf8 "//" ++ body ++ []) [] := .cons (.comment hb (by simp)) .nil
    rw [List.append_nil] at hopen
    exact (hg.gap _).append hopen

theorem stopsAt_of_head {c : Char} (h : wordPart c = false) (kind : Kind) (rest : Bytes) :
    StopsAt kind (utf8EncodeChar c ++ rest) :=
  ⟨fun _ => notNext_char h rest, fun _ => notNext_char (isDecimal_le_wordPart h) rest⟩

theorem stopsAt_comment (kind : Kind) (rest : Bytes) : StopsAt kind (utf8 "//" ++ rest) :=
  stopsAt_of_head (c := '/') (by decide) kind (utf8EncodeChar '/' ++ rest)

/-- No token goes on into a gap. -/
theorem IsGap.stopsAt {gap : Bytes} (h : IsGap gap) (hne : gap ≠ []) (kind : Kind)
    (after : Bytes) : StopsAt kind (gap ++ after) := by
  cases h with
  | nil => exact absurd rfl hne
  | blank hc _ =>
    rw [List.append_assoc]
    exact stopsAt_of_head (wordPart_of_isBlank hc) kind _
  | comment _ _ =>
    rw [List.append_assoc, List.append_assoc]
    exact stopsAt_comment kind _

theorem IsLastGap.stopsAt {gap : Bytes} (h : IsLastGap gap) (kind : Kind) : StopsAt kind gap := by
  have hnil : StopsAt kind [] := by
    have hn (p : Char → Bool) : NotNext p [] := fun c rest h => by simp at h
    exact ⟨fun _ => hn _, fun _ => hn _⟩
  cases h with
  | closed hg =>
    by_cases hne : gap = []
    · rwa [hne]
    · simpa using hg.stopsAt hne kind []
  | @unclosed gap body hg _ =>
    by_cases hne : gap = []
    · rw [hne]
      exact stopsAt_comment kind body
    · exact hg.stopsAt hne kind _

/-- A token ends before the next one exactly when the two are apart. -/
theorem stopsAt_entry_iff (e next : Entry) (rest : Bytes) :
    StopsAt e.key.1 (next.text ++ rest) ↔ Apart e next := by
  rw [Entry.text, List.append_assoc]
  by_cases hgap : next.gap = []
  · obtain ⟨c, tail, he, hword, hdecimal⟩ := exists_head_spell next.writable
    rw [hgap, he, List.nil_append, List.append_assoc]
    simp only [StopsAt, Apart, Glue, hgap, notNext_char_iff, ← Bool.not_eq_true, hword, hdecimal]
    tauto
  · exact ⟨fun _ h => absurd h hgap, fun _ => next.isGap.stopsAt hgap _ _⟩

/-! ## Layouts that are read back -/

namespace Layout

theorem scans_of_isChain {entries : List Entry} {last : Bytes} (hlast : IsLastGap last)
    (h : entries.IsChain Apart) (start : Nat) :
    Scans start (entries.flatMap Entry.text ++ last) ((tokensFrom start entries).map .token) := by
  induction entries generalizing start with
  | nil => simpa [tokensFrom] using (scans_of_gap hlast.gap .done : Scans start (last ++ []) [])
  | cons e rest ih =>
    have hstop : StopsAt e.key.1 (rest.flatMap Entry.text ++ last) := by
      cases rest with
      | nil => exact hlast.stopsAt e.key.1
      | cons next rest =>
        rw [List.flatMap_cons, List.append_assoc]
        exact (stopsAt_entry_iff e next _).mpr (List.isChain_cons_cons.mp h).1
    have hscan := Scans.token (e.writable.spelled hstop)
      (ih h.tail (start + e.gap.length + (spell e.key).length))
    rw [text_of_writable e.writable] at hscan
    rw [List.flatMap_cons, Entry.text, List.append_assoc, List.append_assoc]
    exact scans_of_gap (e.isGap.gap _) hscan

theorem mem_tokensFrom (start : Nat) (before : List Entry) (e : Entry) (after : List Entry) :
    let first := start + (before.flatMap Entry.text).length + e.gap.length
    ⟨first, first + (spell e.key).length, e.key.1, e.key.2⟩ ∈
      tokensFrom start (before ++ e :: after) := by
  induction before generalizing start with
  | nil => exact List.mem_cons_self
  | cons x before ih =>
    have hstart : start + x.gap.length + (spell x.key).length + (before.flatMap Entry.text).length =
        start + ((x :: before).flatMap Entry.text).length := by
      rw [List.flatMap_cons, List.length_append, Entry.text, List.length_append]
      omega
    have hmem := ih (start + x.gap.length + (spell x.key).length)
    rw [hstart] at hmem
    exact List.mem_cons_of_mem _ hmem

/-- Nothing goes on with a token after the byte where it ends. -/
theorem stopsAt_of_mem_tokens {text after : Bytes} {t : Token}
    (ht : t ∈ Bitwire.tokens (text ++ after)) (hstop : t.stop = text.length) :
    StopsAt t.kind after := by
  obtain ⟨i, j, -, -, -, hj, hspelled, -⟩ :=
    exists_readsAt_of_mem_items (mem_items_of_mem_tokens ht)
  obtain rfl : j = text.length := by omega
  rw [List.drop_left] at hspelled
  exact hspelled.stopsAt

/-- The text of a layout has no bad characters and the tokens that were laid out, each at the bytes
where it was written, exactly when all neighbours are apart. -/
theorem tokens_eq_iff_apart (l : Layout) :
    (lexicalFailures l.text = [] ∧ Bitwire.tokens l.text = l.tokens) ↔
      l.entries.IsChain Apart := by
  constructor
  · rintro ⟨-, ht⟩
    rw [List.isChain_iff_forall_rel_of_append_cons_cons]
    intro e next before after he
    have htext : l.text = before.flatMap Entry.text ++ e.text ++
        (next.text ++ (after.flatMap Entry.text ++ l.last)) := by
      simp [text, he]
    have hmem := mem_tokensFrom 0 before e (next :: after)
    rw [← he] at hmem
    change _ ∈ l.tokens at hmem
    rw [← ht, htext] at hmem
    refine (stopsAt_entry_iff e next _).mp (stopsAt_of_mem_tokens hmem ?_)
    rw [List.length_append, Entry.text, List.length_append]
    push_cast
    omega
  · intro h
    have hitems : items l.text = l.tokens.map .token ++ [] := by
      rw [List.append_nil]
      exact (scans_iff.mp (scans_of_isChain l.isLastGap h 0)).symm
    obtain ⟨htokens, hfailures⟩ := tokens_of_items_eq hitems
    exact ⟨hfailures, by rw [htokens, List.filterMap_nil, List.append_nil]⟩

/-- A comment before a name, two shifts and a literal without gaps, and a comment that the text ends
in. -/
theorem tokens_of_shifts_between_comments :
    ∃ l : Layout, l.text = utf8 "//x\na<<<<1//" ∧ l.entries.IsChain Apart ∧
      lexicalFailures l.text = [] ∧ Bitwire.tokens l.text =
        [⟨4, 5, .identifier, utf8 "a"⟩, ⟨5, 7, .shiftLeft, []⟩, ⟨7, 9, .shiftLeft, []⟩,
          ⟨9, 10, .literal, utf8 "1"⟩] := by
  have hcomment : IsGap (utf8 "//" ++ utf8 "x" ++ newline :: []) := .comment (by decide) .nil
  have hlast : IsLastGap ([] ++ (utf8 "//" ++ [])) := .unclosed .nil (by decide)
  have hname : IsName (utf8 "a") := isName_encodeChars 'a' [] (by decide) rfl (by decide)
  have hdigit : IsDigits (utf8 "1") := ⟨'1', [], rfl, List.all_eq_true.mp (by decide)⟩
  let shift : Entry := ⟨[], (.shiftLeft, []), .nil, .symbol (by decide)⟩
  let l : Layout := ⟨[⟨_, (.identifier, utf8 "a"), hcomment, .name hname⟩, shift, shift,
    ⟨[], (.literal, utf8 "1"), .nil, .literal hdigit⟩], _, hlast⟩
  have hapart : l.entries.IsChain Apart := by
    simp [l, shift, Apart, Glue, IsWord, Kind.keywords]
  obtain ⟨hnone, htokens⟩ := l.tokens_eq_iff_apart.mpr hapart
  exact ⟨l, rfl, hapart, hnone, htokens⟩

end Layout

end Bitwire
