import NetBlueprint.Proofs.Compiler.Trail

/-!
Contract: every suffix of a run is drawn by one visit.

A visit that draws a suffix finds it unused and leaves it used, and every visit below it either
ends before the suffix is drawn or starts after that. Used suffixes stay used, so no other visit
can draw the same one. The same holds of whatever stays once it is there, as a scope does.

Owns: which visit brings what stays, and which draws a suffix.

Does not own: what a suffix is put on.
-/

namespace NetBlueprint

/-- A visit brought something on its way, between the visits below it. -/
structure Visit.Brings (Has : CompileState → Prop) (visit : Visit) : Prop where
  fresh : ¬ Has visit.before
  present : Has visit.after
  inner : ∀ below ∈ visit.inner, ¬ Has below.after ∨ Has below.before

/-- A visit drew a suffix on its way, between the visits below it. -/
structure Visit.Drew (suffix : String) (visit : Visit) : Prop where
  fresh : suffix ∉ visit.before.usedSuffixes
  used : suffix ∈ visit.after.usedSuffixes
  inner : ∀ below ∈ visit.inner,
    suffix ∉ below.after.usedSuffixes ∨ suffix ∈ below.before.usedSuffixes

namespace Compile

variable {label suffix : String}

/-- A template call opens its template and fills in the body. -/
theorem filled_of_opened {visit : Visit} {opened : OpenTemplate} (faithful : visit.Faithful)
    (opens : opened? visit = some (label, opened)) :
    ∃ args start, Runs (openTemplate label args) visit.before opened start ∧
      Sequence (FilledIn opened.substitution) opened.body start visit.inner visit.after := by
  have openedOf {name : String} {args : List String} {found : OpenTemplate}
      {before start : CompileState} (ran : Runs (openTemplate name args) before found start)
      (same : (openedIn? ((openTemplate name args).run before)).map
        (fun opened => (name, opened)) = some (label, opened)) : name = label ∧ found = opened := by
    rw [ran] at same
    cases same
    exact ⟨rfl, rfl⟩
  obtain ⟨instruction, before, after, inner⟩ := visit
  cases faithful with
  | intro unfolds _ =>
      dsimp only [opened?] at unfolds opens ⊢
      cases unfolds with
      | templateCall ran filled =>
          obtain ⟨rfl, rfl⟩ := openedOf ran opens
          exact ⟨_, _, ran, filled⟩
      | call ran filled =>
          obtain ⟨rfl, rfl⟩ := openedOf ran opens
          exact ⟨_, _, ran, filled⟩
      | _ => cases opens

/-- Something that stays and comes on the way from one trail to the next is brought by the visit
they make up. -/
theorem brings_of_trails {Has : CompileState → Prop}
    (stays : ∀ {earlier later : CompileState}, earlier.GrowsTo later → Has earlier → Has later)
    {visit : Visit} {early late : List Visit} {start come finish : CompileState}
    (grow : AllGrow visit.inner) (parts : visit.inner = early ++ late)
    (earlier : Trail visit.before early start) (fresh : ¬ Has start) (present : Has come)
    (later : Trail come late finish) (ends : finish.GrowsTo visit.after) : visit.Brings Has := by
  rw [AllGrow, parts] at grow
  have earlyGrow : AllGrow early := fun below member => grow below (List.mem_append_left _ member)
  have lateGrow : AllGrow late := fun below member => grow below (List.mem_append_right _ member)
  refine ⟨?_, ?_, ?_⟩
  · exact fun has => fresh (stays (earlier.grows earlyGrow) has)
  · exact stays ((later.grows lateGrow).trans ends) present
  · intro below member
    rw [parts] at member
    rcases List.mem_append.1 member with before | after
    · exact .inl fun has => fresh (stays (earlier.around earlyGrow before).2 has)
    · exact .inr (stays (later.around lateGrow after).1 present)

/-- A suffix that is drawn on the way from one trail to the next is drawn by the visit they make
up. -/
theorem drew_of_draws {visit : Visit} {early late : List Visit}
    {start drawn finish : CompileState} (grow : AllGrow visit.inner)
    (parts : visit.inner = early ++ late) (earlier : Trail visit.before early start)
    (draws : Draws label start suffix drawn) (later : Trail drawn late finish)
    (ends : finish.GrowsTo visit.after) : visit.Drew suffix := by
  obtain ⟨fresh, present, inner⟩ := brings_of_trails (fun grows used => grows.usedSuffixes used)
    grow parts earlier draws.fresh draws.used later ends
  exact ⟨fresh, present, inner⟩

/-- A template call draws its suffix. -/
theorem drew_of_opened {visit : Visit} {opened : OpenTemplate} (faithful : visit.Faithful)
    (opens : opened? visit = some (label, opened)) : visit.Drew opened.suffix := by
  obtain ⟨_, _, ran, filled⟩ := filled_of_opened faithful opens
  exact drew_of_draws faithful.allGrow (List.nil_append _).symm (.done _) (runs_openTemplate ran).1
    filled.trail (.refl _)

end Compile

namespace Visit

open Compile

/-- No two visits of a run bring the same. -/
theorem Faithful.eq_of_brings {Has : CompileState → Prop}
    (stays : ∀ {earlier later : CompileState}, earlier.GrowsTo later → Has earlier → Has later)
    {root one other : Visit} (faithful : root.Faithful) (oneWithin : Within one root)
    (otherWithin : Within other root) (oneBrings : one.Brings Has)
    (otherBrings : other.Brings Has) : one = other := by
  -- A visit below the one that brings something cannot find it absent and leave it there.
  have below {upper lower middle : Visit} (upperFaithful : upper.Faithful)
      (member : middle ∈ upper.inner) (within : Within lower middle)
      (upperBrings : upper.Brings Has) (lowerBrings : lower.Brings Has) : False := by
    obtain ⟨starts, finishes⟩ := (upperFaithful.ofInner member).around within
    rcases upperBrings.inner middle member with absent | present
    · exact absent (stays finishes lowerBrings.present)
    · exact lowerBrings.fresh (stays starts present)
  have apart {first second : Visit} (grows : first.after.GrowsTo second.before)
      {early late : Visit} (firstFaithful : first.Faithful) (secondFaithful : second.Faithful)
      (earlyWithin : Within early first) (lateWithin : Within late second)
      (earlyBrings : early.Brings Has) (lateBrings : late.Brings Has) : False := by
    have present := stays (firstFaithful.around earlyWithin).2 earlyBrings.present
    exact lateBrings.fresh
      (stays (secondFaithful.around lateWithin).1 (stays grows present))
  induction faithful with
  | @intro visit unfolds inner inductionHypothesis =>
      have faithful : visit.Faithful := .intro unfolds inner
      cases oneWithin with
      | self =>
          cases otherWithin with
          | self => rfl
          | under member within => exact (below faithful member within oneBrings otherBrings).elim
      | under oneMember oneBelow =>
          cases otherWithin with
          | self => exact (below faithful oneMember oneBelow otherBrings oneBrings).elim
          | under otherMember otherBelow =>
              obtain ⟨_, trail, _⟩ := faithful.closes faithful.allGrow
              rcases trail.ordered faithful.allGrow oneMember otherMember with rfl | grows | grows
              · exact inductionHypothesis _ oneMember oneBelow otherBelow
              · exact (apart grows (inner _ oneMember) (inner _ otherMember) oneBelow otherBelow
                  oneBrings otherBrings).elim
              · exact (apart grows (inner _ otherMember) (inner _ oneMember) otherBelow oneBelow
                  otherBrings oneBrings).elim

/-- No two visits of a run draw the same suffix. -/
theorem Faithful.eq_of_drew {suffix : String} {root one other : Visit} (faithful : root.Faithful)
    (oneWithin : Within one root) (otherWithin : Within other root) (oneDrew : one.Drew suffix)
    (otherDrew : other.Drew suffix) : one = other := by
  have brings {visit : Visit} (drew : visit.Drew suffix) :
      visit.Brings fun state => suffix ∈ state.usedSuffixes := ⟨drew.fresh, drew.used, drew.inner⟩
  exact faithful.eq_of_brings (fun grows used => grows.usedSuffixes used) oneWithin otherWithin
    (brings oneDrew) (brings otherDrew)

end Visit

end NetBlueprint
