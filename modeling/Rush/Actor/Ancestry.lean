import Rush.Actor.Path
import Rush.Foundation.Segments

/-!
# Ancestors are proper beginnings of the segments

`is_ancestor_of` and `is_descendant_of` compare the texts of two paths, while
`is_parent_of` compares segments.  For a path with segments the text comparison
is the comparison of the segments.  The text of the empty path already ends with
the slash that the comparison adds, so the empty path is an ancestor of nothing.
-/

namespace Rush
namespace Actor

open Foundation

namespace ActorPath

/-- The paths that `From` and `Div` give. -/
inductive Built : ActorPath → Prop
  | ofText (text : Str) : Built (ofText text)
  | div {path : ActorPath} (h : Built path) (text : Str) : Built (path.div text)

/-- A segment is not blank and has no slash. -/
structure IsSegment (segment : Str) : Prop where
  noSlash : '/' ∉ segment
  notBlank : isBlank segment = false

theorem IsSegment.ne_nil {segment : Str} (h : IsSegment segment) : segment ≠ [] := by
  rintro rfl
  exact absurd h.notBlank (by decide)

theorem isSegment_of_mem_tokens {text segment : Str}
    (h : segment ∈ tokens text) : IsSegment segment := by
  obtain ⟨hsplit, hblank⟩ := List.mem_filter.mp h
  exact ⟨not_mem_of_mem_splitOn segment hsplit, by simpa using hblank⟩

theorem Built.isSegment {path : ActorPath} (h : Built path) :
    ∀ segment ∈ path.segments, IsSegment segment := by
  induction h with
  | ofText text => exact fun segment hmem => isSegment_of_mem_tokens hmem
  | div _ text ih =>
      intro segment hmem
      rcases List.mem_append.mp hmem with hmem | hmem
      · exact ih segment hmem
      · exact isSegment_of_mem_tokens hmem

/-- A path with segments is displayed with a slash before each of them. -/
theorem display_eq_render {path : ActorPath} (h : path.segments ≠ []) :
    path.display = render '/' path.segments := by
  unfold display
  split
  case h_1 hnil => contradiction
  case h_2 segment hsingle => simp [hsingle]
  case h_3 => exact cons_intercalate '/' h

theorem display_of_empty {path : ActorPath} (h : path.segments = []) :
    path.display = ['/'] := by
  simp [display, h]

/-- Nothing is displayed with two slashes in front. -/
theorem not_isAncestorOf_of_empty {p q : ActorPath} (hq : q.Built)
    (hempty : p.segments = []) : p.isAncestorOf q = false := by
  unfold isAncestorOf
  rw [display_of_empty hempty]
  cases hsegments : q.segments with
  | nil => simp [display, hsegments]
  | cons segment segments =>
      have hsegment := hq.isSegment segment (by simp [hsegments])
      rw [display_eq_render (by simp [hsegments]), hsegments, render_cons]
      cases segment with
      | nil => exact absurd rfl hsegment.ne_nil
      | cons c rest =>
          have hne : '/' ≠ c := by
            rintro rfl
            exact hsegment.noSlash List.mem_cons_self
          simp [List.isPrefixOf, hne]

/-- Below an ancestor there is at least one more segment. -/
theorem isAncestorOf_iff {p q : ActorPath} (hp : p.Built) (hq : q.Built)
    (hne : p.segments ≠ []) :
    p.isAncestorOf q = true ↔ p.segments <+: q.segments ∧ p.segments ≠ q.segments := by
  unfold isAncestorOf
  rw [List.isPrefixOf_iff_prefix, display_eq_render hne]
  cases hsegments : q.segments with
  | nil =>
      rw [display_of_empty hsegments]
      cases hfirst : p.segments with
      | nil => contradiction
      | cons segment segments => simp [List.cons_prefix_cons]
  | cons segment segments =>
      rw [display_eq_render (by simp [hsegments]), ← hsegments]
      exact render_prefix_iff (fun s hs => (hp.isSegment s hs).noSlash)
        fun s hs => (hq.isSegment s hs).noSlash

/-- An ancestor is always a proper beginning. -/
theorem prefix_of_isAncestorOf {p q : ActorPath} (hp : p.Built) (hq : q.Built)
    (h : p.isAncestorOf q = true) :
    p.segments <+: q.segments ∧ p.segments ≠ q.segments := by
  by_cases hempty : p.segments = []
  · simp [not_isAncestorOf_of_empty hq hempty] at h
  · exact (isAncestorOf_iff hp hq hempty).mp h

/-- A parent of a path with segments is its beginning. -/
theorem prefix_of_isParentOf {p q : ActorPath} (h : p.isParentOf q = true)
    (hq : q.segments ≠ []) :
    p.segments <+: q.segments ∧ p.segments ≠ q.segments := by
  have hparent : p = q.parent := by simpa [isParentOf] using h
  have hpos : 0 < q.segments.length := List.length_pos_iff.mpr hq
  subst hparent
  unfold parent
  split
  · refine ⟨List.take_prefix _ _, fun heq => ?_⟩
    have hlength := congrArg List.length heq
    simp only [List.length_take] at hlength
    omega
  · exact ⟨List.nil_prefix, Ne.symm hq⟩

/-- What ancestry is for two paths. -/
structure AncestryLaw (p q : ActorPath) : Prop where
  properPrefix : p.isAncestorOf q = true ↔
    p.segments <+: q.segments ∧ p.segments ≠ q.segments
  descendant : p.isAncestorOf q = true ↔ q.isDescendantOf p = true
  irreflexive : p.isAncestorOf p = false
  transitive : ∀ r : ActorPath, r.Built → p.isAncestorOf q = true →
    q.isAncestorOf r = true → p.isAncestorOf r = true
  parent : p.isParentOf q = true → q.segments ≠ [] → p.isAncestorOf q = true

theorem isAncestorOf_irrefl {p : ActorPath} (hp : p.Built) :
    p.isAncestorOf p = false := by
  cases h : p.isAncestorOf p with
  | false => rfl
  | true => exact absurd rfl (prefix_of_isAncestorOf hp hp h).2

theorem isAncestorOf_trans {p q r : ActorPath} (hp : p.Built) (hq : q.Built)
    (hr : r.Built) (hpq : p.isAncestorOf q = true) (hqr : q.isAncestorOf r = true) :
    p.isAncestorOf r = true := by
  have hne : p.segments ≠ [] := by
    intro hempty
    simp [not_isAncestorOf_of_empty hq hempty] at hpq
  obtain ⟨hpq, hnepq⟩ := prefix_of_isAncestorOf hp hq hpq
  obtain ⟨hqr, -⟩ := prefix_of_isAncestorOf hq hr hqr
  refine (isAncestorOf_iff hp hr hne).mpr ⟨hpq.trans hqr, fun heq => ?_⟩
  rw [← heq] at hqr
  exact hnepq (hpq.eq_of_length_le hqr.length_le)

/-- **Ancestry.**  The law holds for two paths if and only if the first one has
a segment or the second one has none. -/
theorem ancestryLaw_iff {p q : ActorPath} (hp : p.Built) (hq : q.Built) :
    AncestryLaw p q ↔ p.segments ≠ [] ∨ q.segments = [] := by
  constructor
  · intro hlaw
    by_contra hnot
    obtain ⟨hempty, hne⟩ : p.segments = [] ∧ q.segments ≠ [] := by tauto
    have hancestor := hlaw.properPrefix.mpr (by simp [hempty, Ne.symm hne])
    simp [not_isAncestorOf_of_empty hq hempty] at hancestor
  · intro hcases
    have hprefix : p.isAncestorOf q = true ↔
        p.segments <+: q.segments ∧ p.segments ≠ q.segments := by
      by_cases hempty : p.segments = []
      · have hnil : q.segments = [] := hcases.resolve_left fun hne => hne hempty
        simp [not_isAncestorOf_of_empty hq hempty, hempty, hnil]
      · exact isAncestorOf_iff hp hq hempty
    exact
      { properPrefix := hprefix
        descendant := Iff.rfl
        irreflexive := isAncestorOf_irrefl hp
        transitive := fun r hr => isAncestorOf_trans hp hq hr
        parent := fun h hne => hprefix.mpr (prefix_of_isParentOf h hne) }

/-- The law holds for a path and its child. -/
theorem building_ancestryLaw :
    AncestryLaw (ofText "/acme".toList)
      ((ofText "/acme".toList).div "building".toList) :=
  (ancestryLaw_iff (.ofText _) (.div (.ofText _) _)).mpr (Or.inl (by decide))

/-- The empty path is the parent of `/acme` and no ancestor of it. -/
theorem empty_not_ancestor :
    (ofText "/".toList).isParentOf (ofText "/acme".toList) = true ∧
      (ofText "/".toList).isAncestorOf (ofText "/acme".toList) = false ∧
      ¬ ∀ p q : ActorPath, p.Built → q.Built → AncestryLaw p q := by
  have hparent : (ofText "/".toList).isParentOf (ofText "/acme".toList) = true := by
    decide
  have hnot : (ofText "/".toList).isAncestorOf (ofText "/acme".toList) = false := by
    decide
  refine ⟨hparent, hnot, fun hall => ?_⟩
  have hlaw := hall (ofText "/".toList) (ofText "/acme".toList) (.ofText _) (.ofText _)
  rw [hlaw.parent hparent (by decide)] at hnot
  contradiction

end ActorPath

end Actor
end Rush
