import AllowList.Namespace

/-!
# What names a namespace

A policy names a namespace by its URI, a source list by its keyword, and a name list by either;
the empty text stands for HTML's URI. No text names two namespaces, so it does not matter that
URIs are tried before keywords.
-/

namespace AllowList.Namespace

/-- A text is taken for a URI when it is one, or empty. -/
theorem ofUri?_eq_some_iff {text : String} {space : Namespace} :
    ofUri? text = some space ↔ text = "" ∧ space = html ∨ text = space.uri := by
  constructor
  · intro found
    unfold ofUri? at found
    split at found
    case isTrue empty => exact Or.inl ⟨empty, (Option.some.inj found).symm⟩
    case isFalse =>
      have same := List.find?_some found
      exact Or.inr (beq_iff_eq.mp same).symm
  · rintro (⟨rfl, rfl⟩ | rfl)
    · rfl
    · exact ofUri?_uri space

/-- A keyword finds the namespace it belongs to. -/
theorem ofKeyword?_eq_some_iff {word : String} {space : Namespace} :
    ofKeyword? word = some space ↔ space.keyword? = some word := by
  constructor
  · intro found
    simpa using List.find?_some found
  · intro keyword
    cases space with
    | html => cases keyword
    | svg | mathml | xlink | xml | xmlns =>
      cases keyword
      decide

/-- A keyword is no URI. -/
theorem ofUri?_of_keyword {word : String} {space : Namespace}
    (keyword : space.keyword? = some word) : ofUri? word = none := by
  cases space with
  | html => cases keyword
  | svg | mathml | xlink | xml | xmlns =>
    cases keyword
    decide

/-- A text names a namespace by being empty, its URI or its keyword. -/
theorem ofText?_eq_some_iff {text : String} {space : Namespace} :
    ofText? text = some space ↔
      text = "" ∧ space = html ∨ text = space.uri ∨ space.keyword? = some text := by
  rw [ofText?, Option.or_eq_some_iff, ofUri?_eq_some_iff, ofKeyword?_eq_some_iff, or_assoc]
  refine or_congr_right (or_congr_right ⟨And.right, fun keyword => ⟨?_, keyword⟩⟩)
  exact ofUri?_of_keyword keyword

end AllowList.Namespace
