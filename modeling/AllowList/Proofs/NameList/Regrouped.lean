import AllowList.NameList.Join
import AllowList.Proofs.Order

/-!
# Regrouped name lists

Joined lists forget which list a name came from: names go behind the tags of their namespaces, all
of them are sorted, and a tag may as well be part of a name. So lists can be `Regrouped` without a
trace. This is all that is forgotten: lists that are joined into the same names can be regrouped
into each other (`regrouped_iff`, `joined_eq_iff`).
-/

namespace AllowList.NameList

/-- Lists regrouped: their names are given in another order or in other lists, or are spelled
out with their tag in an HTML list. -/
inductive Regrouped : List NameList → List NameList → Prop where
  /-- The lists come in another order. -/
  | lists {lists others : List NameList} (same : lists.Perm others) : Regrouped lists others
  /-- The names of a list come in another order. -/
  | names (space : Namespace) {names others : List String} (same : names.Perm others) :
    Regrouped [⟨space, names⟩] [⟨space, others⟩]
  /-- A list is split into two of its namespace. -/
  | split (space : Namespace) (front back : List String) :
    Regrouped [⟨space, front ++ back⟩] [⟨space, front⟩, ⟨space, back⟩]
  /-- A name moves to an HTML list, as text with its tag. -/
  | spelled (space : Namespace) (name : String) (names others : List String) :
    Regrouped [⟨space, name :: names⟩, ⟨.html, others⟩]
      [⟨space, names⟩, ⟨.html, (space.tag ++ name) :: others⟩]
  /-- A list without names is left out. -/
  | emptied (space : Namespace) : Regrouped [⟨space, []⟩] []
  | beside {lists others : List NameList} (regrouped : Regrouped lists others)
    (more : List NameList) : Regrouped (lists ++ more) (others ++ more)
  | symm {lists others : List NameList} (regrouped : Regrouped lists others) :
    Regrouped others lists
  | trans {lists middle others : List NameList} (first : Regrouped lists middle)
    (second : Regrouped middle others) : Regrouped lists others

/-- Behind the tag of HTML a text stands as it is. -/
theorem tagged_html (names : List String) : tagged ⟨.html, names⟩ = names := by
  simp [tagged, Namespace.tag]

/-- Regrouped lists have the same names behind their tags, each as often. -/
theorem Regrouped.perm {lists others : List NameList} (regrouped : Regrouped lists others) :
    (lists.flatMap tagged).Perm (others.flatMap tagged) := by
  induction regrouped with
  | lists same => exact same.flatMap_right tagged
  | names space same =>
    simp only [List.flatMap_singleton]
    exact same.map (space.tag ++ ·)
  | split space front back => simp [tagged]
  | spelled space name names others =>
    simp only [List.flatMap_cons, List.flatMap_nil, List.append_nil, tagged_html]
    exact List.perm_middle.symm
  | emptied space => simp [tagged]
  | beside _ more ih =>
    rw [List.flatMap_append, List.flatMap_append]
    exact ih.append_right (more.flatMap tagged)
  | symm _ ih => exact ih.symm
  | trans _ _ first second => exact first.trans second

/-- All names of a list can be spelled out in an HTML list behind it. -/
theorem regrouped_spelledOut (space : Namespace) (names others : List String) :
    Regrouped [⟨space, names⟩, ⟨.html, others⟩] [⟨.html, tagged ⟨space, names⟩ ++ others⟩] := by
  induction names generalizing others with
  | nil => exact (Regrouped.emptied space).beside _
  | cons name names ih =>
    refine (Regrouped.spelled space name names others).trans ((ih _).trans ?_)
    exact .names .html List.perm_middle

/-- Lists are regrouped into one list of HTML with all their names behind their tags. -/
theorem regrouped_single (lists : List NameList) :
    Regrouped lists [⟨.html, lists.flatMap tagged⟩] := by
  induction lists with
  | nil => exact (Regrouped.emptied .html).symm
  | cons list rest ih =>
    have front : Regrouped (list :: rest) [list, ⟨.html, rest.flatMap tagged⟩] := by
      have behind := ih.beside [list]
      have swapped (others : List NameList) : Regrouped (others ++ [list]) (list :: others) :=
        .lists List.perm_append_comm
      exact (swapped rest).symm.trans (behind.trans (swapped _))
    exact front.trans (regrouped_spelledOut list.space list.names _)

/-- Lists can be regrouped into each other when they have the same names behind their tags, each
as often. -/
theorem regrouped_iff {lists others : List NameList} :
    Regrouped lists others ↔ (lists.flatMap tagged).Perm (others.flatMap tagged) := by
  constructor
  · exact Regrouped.perm
  · intro same
    have single : Regrouped [⟨.html, lists.flatMap tagged⟩] [⟨.html, others.flatMap tagged⟩] :=
      .names .html same
    exact (regrouped_single lists).trans (single.trans (regrouped_single others).symm)

/-- Lists are joined into the same names exactly when they can be regrouped into each other. -/
theorem joined_eq_iff {lists others : List NameList} :
    joined lists = joined others ↔ (lists.flatMap tagged).Perm (others.flatMap tagged) :=
  mergeSort_isLE_eq_iff

/-- Joined names depend on nothing but the tagged names of the lists and how often each is there.

The joined names are the tagged names of all lists, with their repeats, and their bytes ascend.
Other lists are joined into the same names exactly when their tagged names are the same, each as
often: that is, exactly when the lists can be regrouped into each other. Then the text of the
joined lists is the same at every width. -/
theorem joined_by_tagged_names (lists : List NameList) :
    (joined lists).Perm (lists.flatMap tagged) ∧
    (joined lists).Pairwise (fun earlier later => Text.bytes earlier ≤ Text.bytes later) ∧
    ∀ others : List NameList,
      (Regrouped lists others ↔ (lists.flatMap tagged).Perm (others.flatMap tagged)) ∧
      (joined lists = joined others ↔ (lists.flatMap tagged).Perm (others.flatMap tagged)) ∧
      ((lists.flatMap tagged).Perm (others.flatMap tagged) →
        ∀ width, (writeJoined width lists).value = (writeJoined width others).value) := by
  refine ⟨List.mergeSort_perm _ _, ?_, fun others => ⟨regrouped_iff, joined_eq_iff, ?_⟩⟩
  · simp only [← Text.atOrBefore_iff]
    exact pairwise_mergeSort_isLE _
  · intro same width
    have names : joined lists = joined others := joined_eq_iff.mpr same
    have text (lists : List NameList) :
        (writeJoined width lists).value =
          String.ofList (Text.wrap width (listWords (joined lists))) := rfl
    rw [text, text, names]

/-- A name that is there twice, and names that begin as another's tag does. -/
def apart : List NameList :=
  [⟨.svg, ["rect", "a", "rect"]⟩, ⟨.html, ["svg", "svh"]⟩]

/-- The same names with one list split and one name spelled out. -/
def regroupedApart : List NameList :=
  [⟨.html, ["svh", "svg:rect", "svg"]⟩, ⟨.xml, []⟩, ⟨.svg, ["rect"]⟩, ⟨.svg, ["a"]⟩]

theorem joined_by_tagged_names_apart :
    (apart.flatMap tagged).Perm (regroupedApart.flatMap tagged) ∧ Regrouped apart regroupedApart ∧
    ∀ width, (writeJoined width apart).value = (writeJoined width regroupedApart).value := by
  have same : (apart.flatMap tagged).Perm (regroupedApart.flatMap tagged) := by decide
  obtain ⟨_, _, answers⟩ := joined_by_tagged_names apart
  obtain ⟨groups, _, texts⟩ := answers regroupedApart
  exact ⟨same, groups.mpr same, texts same⟩

end AllowList.NameList
