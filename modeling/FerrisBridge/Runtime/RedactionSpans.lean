import FerrisBridge.Runtime.Redaction

/-!
# A pass rewrites spans

What a pass does to a text is a list of spans, one for each marker that it finds: the spans are
replaced by the placeholder, and what stands between them is copied.
-/

namespace FerrisBridge

/-- The text from the cursor on, with the placeholder in the place of each span. -/
def rewriteSpans (input : List Char) : ℕ → List (ℕ × ℕ) → Option (List Char)
  | cursor, [] => sliceFrom input cursor
  | cursor, (start, stop) :: spans => do
    let kept ← slice input cursor start
    let rest ← rewriteSpans input stop spans
    return kept ++ placeholder ++ rest

/-- The spans of the values that the pass finds from the cursor on. -/
inductive ValueSpans (input key : List Char) : ℕ → List (ℕ × ℕ) → Prop
  | done {cursor : ℕ} (hmarker : findNextMarker input key cursor = some none) :
    ValueSpans input key cursor []
  | value {cursor valueStart start stop : ℕ} {spans : List (ℕ × ℕ)}
    (hmarker : findNextMarker input key cursor = some (some valueStart))
    (hspan : secretValueSpan input valueStart key = some (start, stop))
    (hspans : ValueSpans input key stop spans) : ValueSpans input key cursor ((start, stop) :: spans)

/-- The offset is a character boundary of the text. -/
def IsBoundary (input : List Char) (offset : ℕ) : Prop := ∃ rest, StartsAt input offset rest

/-- A part of the text that can be cut out. -/
structure IsSpan (input : List Char) (span : ℕ × ℕ) : Prop where
  ordered : span.1 ≤ span.2
  start : IsBoundary input span.1
  stop : IsBoundary input span.2

theorem StartsAt.le_of_suffix {input rest later : List Char} {offset next : ℕ}
    (h : StartsAt input offset rest) (hlater : StartsAt input next later) (hsuffix : later <:+ rest) :
    offset ≤ next := by
  obtain ⟨skipped, rfl⟩ := hsuffix
  rw [hlater.offset_unique (h.advance skipped)]
  exact Nat.le_add_right _ _

/-- The induction is on the text that is left; each span starts behind the cursor, since the
separator of its marker stands before it. -/
theorem exists_valueSpans {key : List Char} (hkey : key ≠ []) {input rest : List Char} {cursor : ℕ}
    (h : StartsAt input cursor rest) :
    ∃ spans, ValueSpans input key cursor spans ∧
      rewriteSpans input cursor spans = some (redactAll key rest) ∧
      spans.Pairwise (fun span later ↦ span.2 < later.1) ∧
      ∀ span ∈ spans, cursor < span.1 ∧ IsSpan input span := by
  induction hlength : rest.length using Nat.strong_induction_on generalizing rest cursor with
  | _ length ih =>
    subst hlength
    obtain ⟨next, hmarker, hrel⟩ := findNextMarker_eq hkey h
    cases hvalue : nextValue key rest with
    | none =>
      rw [hvalue] at hrel
      cases hrel
      refine ⟨[], ValueSpans.done hmarker, ?_, List.Pairwise.nil, by simp⟩
      rw [rewriteSpans, h.sliceFrom, redactAll_of_none hvalue]
    | some value =>
      rw [hvalue] at hrel
      cases hrel with
      | some hrel =>
        obtain ⟨⟨start, stop⟩, hspan, hstart, hstop⟩ := secretValueSpan_eq key hrel
        obtain ⟨hsuffix, hlt⟩ := nextValue_suffix hvalue
        have hend := valueEnd_suffix key value
        have hquote := quoteRest_suffix value
        have hlater : cursor < start := by
          apply (h.lt_iff_length hstart).mpr
          exact lt_of_le_of_lt hquote.length_le hlt
        have hordered : start ≤ stop := hstart.le_of_suffix hstop hend
        have hshort : (valueEnd key value).length < rest.length :=
          lt_of_le_of_lt (hend.trans hquote).length_le hlt
        obtain ⟨spans, hspans, hrewrite, hpairwise, hplaced⟩ := ih _ hshort hstop rfl
        refine ⟨(start, stop) :: spans, ValueSpans.value hmarker hspan hspans, ?_, ?_, ?_⟩
        · simp only [rewriteSpans, h.slice hstart (hquote.trans hsuffix), hrewrite,
            redactAll_of_some hvalue, Option.bind_eq_bind, Option.bind_some, Option.pure_def]
        · exact List.pairwise_cons.mpr ⟨fun span hmem ↦ (hplaced span hmem).1, hpairwise⟩
        · intro span hmem
          obtain rfl | hmem := List.mem_cons.mp hmem
          · exact ⟨hlater, hordered, ⟨_, hstart⟩, ⟨_, hstop⟩⟩
          · obtain ⟨hbehind, hisSpan⟩ := hplaced span hmem
            exact ⟨by omega, hisSpan⟩

/-- A pass comes to its end on every text, and all it does is to replace the values that it finds,
which are disjoint spans one behind the other. -/
theorem redactInlineKeyValues_rewrites {key : List Char} (hkey : key ≠ []) (input : List Char) :
    ∃ spans output, redactInlineKeyValues input key = some output ∧
      ValueSpans input key 0 spans ∧ rewriteSpans input 0 spans = some output ∧
      spans.Pairwise (fun span later ↦ span.2 < later.1) ∧ ∀ span ∈ spans, IsSpan input span := by
  obtain ⟨spans, hspans, hrewrite, hpairwise, hplaced⟩ :=
    exists_valueSpans hkey (StartsAt.start input)
  exact ⟨spans, _, redactInlineKeyValues_eq hkey input, hspans, hrewrite, hpairwise,
    fun span hmem ↦ (hplaced span hmem).2⟩

theorem redactInlineKeyValues_rewrites_token :
    ∃ spans output, redactInlineKeyValues "tökén: 1, token=\"é\\\" 2".toList "token".toList =
        some output ∧
      ValueSpans "tökén: 1, token=\"é\\\" 2".toList "token".toList 0 spans ∧
      rewriteSpans "tökén: 1, token=\"é\\\" 2".toList 0 spans = some output ∧
      spans.Pairwise (fun span later ↦ span.2 < later.1) ∧
      ∀ span ∈ spans, IsSpan "tökén: 1, token=\"é\\\" 2".toList span :=
  redactInlineKeyValues_rewrites (by decide) _

end FerrisBridge
