import Bitwire.Proofs.Reading
import Bitwire.Proofs.Scanning

/-! The tokens of a text by kind and text alone. Texts that lex can be put together piece by piece,
from the right, and a source is parsed exactly when it lexes to a source file of the grammar. -/
namespace Bitwire

open Text Grammar
open String (utf8EncodeChar)

/-! ## Keys -/

/-- What a token says, wherever it stands. -/
abbrev Key := Kind × Bytes

def Token.key (t : Token) : Key := (t.kind, t.text)

/-- A token whose text is one that its kind can have in a source. -/
structure Token.WellSpelled (t : Token) : Prop where
  name : t.kind = .identifier → IsName t.text
  literal : t.kind = .literal → IsDigits t.text
  bare : t.kind.hasText = false → t.text = []

/-- A text without bad characters, with its tokens. -/
inductive Lexes : Bytes → List Key → Prop
  | done : Lexes [] []
  | skip {text after : Bytes} {keys : List Key} :
      Skipped text after → Lexes after keys → Lexes (text ++ after) keys
  | token {kind : Kind} {text after : Bytes} {keys : List Key} :
      Spelled kind text after → Lexes after keys →
      Lexes (text ++ after) ((kind, if kind.hasText then text else []) :: keys)

theorem Lexes.scans {s : Bytes} {keys : List Key} (h : Lexes s keys) (start : Nat) :
    ∃ ts : List Token, ts.map Token.key = keys ∧ Scans start s (ts.map .token) := by
  induction h generalizing start with
  | done => exact ⟨[], rfl, .done⟩
  | skip hs _ ih =>
    obtain ⟨ts, hk, hts⟩ := ih _
    exact ⟨ts, hk, .skip hs hts⟩
  | token hs _ ih =>
    obtain ⟨ts, hk, hts⟩ := ih _
    exact ⟨_ :: ts, by rw [List.map_cons, hk]; rfl, .token hs hts⟩

theorem Lexes.items {s : Bytes} {keys : List Key} (h : Lexes s keys) :
    ∃ ts : List Token, ts.map Token.key = keys ∧ items s = ts.map .token := by
  obtain ⟨ts, hk, hts⟩ := h.scans 0
  exact ⟨ts, hk, (scans_iff.mp hts).symm⟩

theorem Lexes.unique {s : Bytes} {keys keys' : List Key} (h : Lexes s keys) (h' : Lexes s keys') :
    keys = keys' := by
  obtain ⟨ts, rfl, hts⟩ := h.items
  obtain ⟨us, rfl, hus⟩ := h'.items
  rw [List.map_injective_iff.mpr Item.token_injective (hts.symm.trans hus)]

/-! ## Pieces of a text -/

theorem notNext_char {p : Char → Bool} {c : Char} (h : p c = false) (rest : Bytes) :
    NotNext p (utf8EncodeChar c ++ rest) := by
  intro d rest' hd
  rwa [← (encodeChar_append_inj hd).1]

theorem isDecimal_le_wordPart {c : Char} (h : wordPart c = false) : isDecimal c = false := by
  simp only [wordPart, isNumber, Bool.or_eq_false_iff] at h
  simp_all [isDecimal]

theorem Lexes.blank {c : Char} (hc : isBlank c = true) {after : Bytes} {keys : List Key}
    (h : Lexes after keys) : Lexes (utf8EncodeChar c ++ after) keys :=
  .skip (.blank hc) h

theorem Lexes.symbol {k : Kind} (hk : k ∈ Kind.symbols) {after : Bytes} {keys : List Key}
    (h : Lexes after keys) : Lexes (k.spelling ++ after) ((k, []) :: keys) := by
  have hl := Lexes.token (.symbol hk) h
  rwa [Kind.hasText_bare (List.mem_append_right _ hk)] at hl

theorem Lexes.keyword {k : Kind} (hk : k ∈ Kind.keywords) {after : Bytes} {keys : List Key}
    (hn : NotNext wordPart after) (h : Lexes after keys) :
    Lexes (k.spelling ++ after) ((k, []) :: keys) := by
  have hl := Lexes.token (.keyword hk hn) h
  rwa [Kind.hasText_bare (List.mem_append_left _ hk)] at hl

theorem Lexes.name {text after : Bytes} {keys : List Key} (ht : IsName text)
    (hn : NotNext wordPart after) (h : Lexes after keys) :
    Lexes (text ++ after) ((.identifier, text) :: keys) :=
  .token (.name ht hn) h

theorem Lexes.literal {text after : Bytes} {keys : List Key} (ht : IsDigits text)
    (hn : NotNext isDecimal after) (h : Lexes after keys) :
    Lexes (text ++ after) ((.literal, text) :: keys) :=
  .token (.literal ht hn) h

/-! ## Sources -/

theorem Spelled.wellSpelled {kind : Kind} {text after : Bytes} (h : Spelled kind text after)
    (start stop : Int) :
    (Token.mk start stop kind (if kind.hasText then text else [])).WellSpelled := by
  have bare {k : Kind} (hk : k ∈ Kind.keywords ++ Kind.symbols) (text : Bytes) :
      (Token.mk start stop k (if k.hasText then text else [])).WellSpelled := by
    have ht := Kind.hasText_bare hk
    -- a name or a literal would have a text
    refine ⟨?_, ?_, fun _ => by simp [ht]⟩ <;>
    · rintro rfl
      cases ht
  cases h with
  | name ht _ => exact ⟨fun _ => ht, fun h => (nomatch h), fun h => (nomatch h)⟩
  | keyword hk _ => exact bare (List.mem_append_left _ hk) _
  | literal ht _ => exact ⟨fun h => (nomatch h), fun _ => ht, fun h => (nomatch h)⟩
  | symbol hk => exact bare (List.mem_append_right _ hk) _

/-- A reading that succeeds has met tokens only, all of them well spelled. -/
theorem tokens_of_run_ok {start : Nat} {s : Bytes} {xs : List Item} (h : Scans start s xs)
    {p : Progress} {last : Int} {pulled : Nat} {d : Design}
    (hr : (p.run last pulled xs).result = .ok d) :
    ∃ ts : List Token, xs = ts.map .token ∧ ∀ t ∈ ts, t.WellSpelled := by
  induction h generalizing p last pulled with
  | done => exact ⟨[], rfl, by simp⟩
  | skip _ _ ih => exact ih hr
  | token hs _ ih =>
    simp only [Progress.run] at hr
    split at hr
    · obtain ⟨ts, rfl, hts⟩ := ih hr
      refine ⟨_ :: ts, rfl, ?_⟩
      intro t ht
      rcases List.mem_cons.mp ht with rfl | ht
      · exact hs.wellSpelled _ _
      · exact hts t ht
    · cases hr
    · cases hr
    · cases hr
  | bad => cases hr

theorem tokens_of_items_eq {src : Bytes} {ts : List Token} {rest : List Item}
    (h : items src = ts.map .token ++ rest) :
    tokens src = ts ++ rest.filterMap Item.token? ∧
      lexicalFailures src = rest.filterMap Item.failure? := by
  have htokens : (ts.map Item.token).filterMap Item.token? = ts := by
    rw [List.filterMap_map]
    exact List.filterMap_some
  have hfailures : (ts.map Item.token).filterMap Item.failure? = [] := by
    rw [List.filterMap_map]
    exact List.filterMap_eq_nil_iff.mpr fun _ _ => rfl
  constructor
  · rw [tokens, h, List.filterMap_append, htokens]
  · rw [lexicalFailures, h, List.filterMap_append, hfailures, List.nil_append]

theorem parse_of_items {src : Bytes} {ts : List Token} (h : items src = ts.map .token)
    (d : Design) : Design.parse src = .ok d ↔ Progress.start.advance ts = some (.done d) := by
  rw [Design.parse, Design.read, h]
  exact Progress.run_tokens_eq_ok_iff .start 0 0 ts d

theorem sourceFile_of_parse {src : Bytes} {d : Design} (h : Design.parse src = .ok d) :
    ∃ ts, (∀ t ∈ ts, t.WellSpelled) ∧ SourceFile ts d := by
  obtain ⟨ts, hts, hw⟩ := tokens_of_run_ok (scans_iff.mpr rfl : Scans 0 src (items src)) h
  exact ⟨ts, hw, advance_start_iff.mp ((parse_of_items hts d).mp h)⟩

end Bitwire
