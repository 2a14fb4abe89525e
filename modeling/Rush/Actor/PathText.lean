import Rush.Actor.Ancestry
import Mathlib.Data.Set.Function

/-!
# Path text and path value

A path is displayed with a slash before each segment, and text is read by
splitting it at the slashes.  Reading undoes displaying on the paths whose
segments are not blank and have no slash, and these are exactly the paths that
the operations give.  So a path may stand for its text, and a division reads a
longer text.
-/

namespace Rush
namespace Actor

open Foundation

namespace ActorPath

/-- The paths that `From`, `Div`, `root`, `parent` and `at_level` give. -/
inductive Derived : ActorPath → Prop
  | ofText (text : Str) : Derived (ofText text)
  | div {path : ActorPath} (h : Derived path) (text : Str) : Derived (path.div text)
  | root {path : ActorPath} (h : Derived path) : Derived path.root
  | parent {path : ActorPath} (h : Derived path) : Derived path.parent
  | atLevel {path : ActorPath} (h : Derived path) (level : Nat) :
      Derived (path.atLevel level)

/-- No segment is blank or has a slash. -/
def WellFormed (path : ActorPath) : Prop :=
  ∀ segment ∈ path.segments, IsSegment segment

section Tokens

theorem tokens_append_slash (a b : Str) :
    tokens (a ++ '/' :: b) = tokens a ++ tokens b := by
  unfold tokens
  rw [List.splitOn_append_cons_self, List.filter_append]

theorem tokens_cons_slash (text : Str) : tokens ('/' :: text) = tokens text :=
  tokens_append_slash [] text

/-- Segments that are joined with slashes are read back. -/
theorem tokens_intercalate {segments : List Str}
    (h : ∀ segment ∈ segments, IsSegment segment) :
    tokens (List.intercalate ['/'] segments) = segments := by
  by_cases hne : segments = []
  · subst hne
    rfl
  · unfold tokens
    rw [List.splitOn_intercalate '/' (fun segment hmem => (h segment hmem).noSlash) hne]
    refine List.filter_eq_self.mpr fun segment hmem => ?_
    simp [(h segment hmem).notBlank]

end Tokens

section Levels

variable (path : ActorPath)

theorem root_eq : path.root = ⟨path.segments.take 1⟩ := by
  unfold root
  split
  case isTrue hone => rw [List.take_of_length_le (by omega)]
  case isFalse =>
    split
    case isTrue => rfl
    case isFalse hempty =>
      have hnil : path.segments = [] := by simpa using hempty
      rw [hnil]
      rfl

theorem parent_eq : path.parent = ⟨path.segments.take (path.level - 1)⟩ := by
  unfold parent level
  split
  case isTrue => rfl
  case isFalse hshort =>
    have hzero : path.segments.length - 1 = 0 := by omega
    rw [hzero]
    rfl

/-- The four branches of `at_level` are two. -/
theorem atLevel_eq (level : Nat) :
    path.atLevel level =
      if 1 ≤ level ∧ level < path.level then ⟨path.segments.take level⟩ else path := by
  unfold atLevel
  by_cases hin : 1 ≤ level ∧ level < path.level
  · have hout : ¬ (level < 1 ∨ path.level ≤ level) := by omega
    have htop : path.isTopLevel = false := by
      have hdeep : path.segments.length ≠ 1 := by
        unfold ActorPath.level at hin
        omega
      simpa [isTopLevel] using hdeep
    rw [if_pos hin, if_neg hout, htop, if_neg Bool.false_ne_true]
    split
    case isTrue hlast => rw [parent_eq, hlast]
    case isFalse => rfl
  · rw [if_neg hin, if_pos (by omega)]

theorem atLevel_one (h : 2 ≤ path.level) : path.atLevel 1 = path.root := by
  rw [atLevel_eq, if_pos (by omega), root_eq]

theorem atLevel_last (h : 2 ≤ path.level) :
    path.atLevel (path.level - 1) = path.parent := by
  rw [atLevel_eq, if_pos (by omega), parent_eq]

end Levels

section Values

variable {p q : ActorPath}

theorem WellFormed.take (h : p.WellFormed) (n : Nat) :
    WellFormed ⟨p.segments.take n⟩ :=
  fun segment hmem => h segment (List.mem_of_mem_take hmem)

theorem wellFormed_ofText (text : Str) : (ofText text).WellFormed :=
  fun _ hmem => isSegment_of_mem_tokens hmem

theorem WellFormed.div (h : p.WellFormed) (text : Str) : (p.div text).WellFormed := by
  intro segment hmem
  rcases List.mem_append.mp hmem with hmem | hmem
  · exact h segment hmem
  · exact isSegment_of_mem_tokens hmem

theorem Derived.wellFormed (h : p.Derived) : p.WellFormed := by
  induction h with
  | ofText text => exact wellFormed_ofText text
  | div _ text ih => exact ih.div text
  | root _ ih =>
      rw [root_eq]
      exact ih.take 1
  | parent _ ih =>
      rw [parent_eq]
      exact ih.take _
  | atLevel _ level ih =>
      rw [atLevel_eq]
      split
      · exact ih.take level
      · exact ih

/-- The three cases of `Display` are one. -/
theorem display_eq (path : ActorPath) :
    path.display = '/' :: List.intercalate ['/'] path.segments := by
  obtain ⟨segments⟩ := path
  match segments with
  | [] => rfl
  | [segment] => simp [display, List.intercalate]
  | _ :: _ :: _ => rfl

/-- Reading undoes displaying. -/
theorem WellFormed.ofText_display (h : p.WellFormed) : ofText p.display = p := by
  unfold ofText
  rw [display_eq, tokens_cons_slash, tokens_intercalate h]

/-- The operations give exactly the well-formed paths. -/
theorem derived_iff_wellFormed : p.Derived ↔ p.WellFormed := by
  refine ⟨Derived.wellFormed, fun h => ?_⟩
  rw [← h.ofText_display]
  exact .ofText p.display

/-- `root`, `parent` and `at_level` give no path that `From` does not give. -/
theorem Derived.built (h : p.Derived) : p.Built := by
  rw [← h.wellFormed.ofText_display]
  exact .ofText p.display

theorem leftInvOn_display :
    Set.LeftInvOn ofText display {path : ActorPath | path.WellFormed} :=
  fun _ h => WellFormed.ofText_display h

/-- Displaying is injective on well-formed paths. -/
theorem display_inj (hp : p.WellFormed) (hq : q.WellFormed) :
    p = q ↔ p.display = q.display :=
  (leftInvOn_display.injOn.eq_iff hp hq).symm

end Values

section Division

theorem div_ofText (a b : Str) : (ofText a).div b = ofText (a ++ '/' :: b) := by
  unfold div ofText
  rw [tokens_append_slash]

theorem div_div (path : ActorPath) (a b : Str) :
    (path.div a).div b = path.div (a ++ '/' :: b) := by
  unfold div
  rw [tokens_append_slash, List.append_assoc]

end Division

/-- What path text and path value are to each other, for two paths and for
arbitrary texts. -/
structure TextLaw (p q : ActorPath) (s a b : Str) : Prop where
  segments : ∀ segment ∈ p.segments, isBlank segment = false ∧ '/' ∉ segment
  roundTrip : ofText p.display = p
  equal : p = q ↔ p.display = q.display
  idempotent : ofText (ofText s).display = ofText s
  division : (ofText a).div b = ofText (a ++ '/' :: b)
  associative : (p.div a).div b = p.div (a ++ '/' :: b)
  atLevel : ∀ level, p.atLevel level =
    if 1 ≤ level ∧ level < p.level then ⟨p.segments.take level⟩ else p
  atRoot : 2 ≤ p.level → p.atLevel 1 = p.root
  atParent : 2 ≤ p.level → p.atLevel (p.level - 1) = p.parent

/-- **Path text and path value are interchangeable** for all paths that the
operations give and for all texts. -/
theorem textLaw {p q : ActorPath} (hp : p.Derived) (hq : q.Derived)
    (s a b : Str) : TextLaw p q s a b where
  segments segment hmem :=
    ⟨(hp.wellFormed segment hmem).notBlank, (hp.wellFormed segment hmem).noSlash⟩
  roundTrip := hp.wellFormed.ofText_display
  equal := display_inj hp.wellFormed hq.wellFormed
  idempotent := (wellFormed_ofText s).ofText_display
  division := div_ofText a b
  associative := div_div p a b
  atLevel := p.atLevel_eq
  atRoot := p.atLevel_one
  atParent := p.atLevel_last

/-- `textLaw` at paths with repeated slashes, a blank segment and a segment with
spaces around it. -/
theorem textLaw_at_spaces :
    TextLaw (((ofText "//acme/ room /".toList).div " /a//b".toList).atLevel 3)
      (ofText "/acme/ room ".toList).parent "/ / x".toList "user/".toList
      "child".toList :=
  textLaw (.atLevel (.div (.ofText _) _) 3) (.parent (.ofText _)) _ _ _

end ActorPath

end Actor
end Rush
