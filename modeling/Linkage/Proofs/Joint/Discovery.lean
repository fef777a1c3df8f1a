import Linkage.Proofs.Joint.Account
import Linkage.Proofs.Joint.Ties
import Linkage.Proofs.Store.Selection

/-!
# When a controller attaches

In each turn before it attaches a controller looks for its child link: first for
the child model, which is its own model or the first live one of the name, and
then for the first live link of that model with the name. What it finds is
decided by the store of that turn alone, whatever was found or missing in the
turns before.

So it attaches in the first turn in which there is such a link to see. In the
turns before it says what is missing, unless it is the model and the settings
ask for silence; from then on its turns give no warning.

## Main results

* `Controller.search_eq_link_iff` and its companions: what a look for the child
  link finds.
* `Controller.initialized_before_iff`: a controller is attached if it has seen
  its child link.
* `Controller.becomes_initialized_iff`: it attaches when it sees it for the
  first time.
* `Controller.attaches_at_first_sight`: in which turn it attaches, to what, and
  what it logs.
-/

namespace Linkage

namespace Controller

variable {κ : Type}

/-! ## Looking for the child link -/

/-- The model under which the child link is looked for: the controller's own
model if the settings say so, and otherwise the first live model of the name. -/
def IsChildModel (spec : JointSpec) (model : Entity) (s : Store)
    (child : Entity) : Prop :=
  if spec.childModel = selfModel then child = model
  else s.IsFirst (s.ModelNamed spec.childModel) child

section Search

variable {spec : JointSpec} {model : Entity} {s : Store}

theorem childModel?_eq_some_iff (child : Entity) :
    childModel? spec model s = some child ↔
      IsChildModel spec model s child := by
  unfold childModel? IsChildModel JointSpec.childIsSelf
  by_cases h : spec.childModel = selfModel
  · simp [h, eq_comm]
  · simp [h, Store.first?_modelNamed_eq_some_iff]

theorem search_eq_noModel_iff :
    search spec model s = .noModel ↔
      ∀ child, ¬ IsChildModel spec model s child := by
  unfold search
  cases hchild : childModel? spec model s with
  | none =>
      simp only [true_iff]
      intro child his
      rw [← childModel?_eq_some_iff, hchild] at his
      cases his
  | some child =>
      have his := (childModel?_eq_some_iff child).1 hchild
      have hnot : ¬ ∀ child, ¬ IsChildModel spec model s child :=
        fun h => h child his
      simp only [hnot, iff_false]
      cases s.linkNamed? child spec.childLink <;> simp

theorem search_eq_noLink_iff :
    search spec model s = .noLink ↔ ∃ child, IsChildModel spec model s child ∧
      ∀ link, s.has link = true → ¬ s.LinkNamed child spec.childLink link := by
  simp only [← childModel?_eq_some_iff, ← Store.linkNamed?_eq_none_iff]
  unfold search
  cases hchild : childModel? spec model s with
  | none => simp
  | some child =>
      cases hlink : s.linkNamed? child spec.childLink <;> simp [hlink]

theorem search_eq_link_iff (link : Entity) :
    search spec model s = .link link ↔
      ∃ child, IsChildModel spec model s child ∧
      s.IsFirst (s.LinkNamed child spec.childLink) link := by
  simp only [← childModel?_eq_some_iff, ← Store.linkNamed?_eq_some_iff]
  unfold search
  cases hchild : childModel? spec model s with
  | none => simp
  | some child =>
      cases hlink : s.linkNamed? child spec.childLink <;> simp [hlink]

end Search

/-- There is a child link for the controller to see: a child model, and under it
some live link of the name. -/
def Sights (c : Controller) (s : Store) : Prop :=
  ∃ spec model child link, c.spec = some spec ∧ c.model = some model ∧
    IsChildModel spec model s child ∧ s.has link = true ∧
    s.LinkNamed child spec.childLink link

/-- A controller that knows its settings sees its child link when the look for
it finds one. -/
theorem sights_iff {c : Controller} {spec : JointSpec} {model : Entity}
    (hspec : c.spec = some spec) (hmodel : c.model = some model) (s : Store) :
    Sights c s ↔ ∃ link, search spec model s = .link link := by
  constructor
  · rintro ⟨spec', model', child, link, hspec', hmodel', hchild, hlive, hlink⟩
    cases hspec.symm.trans hspec'
    cases hmodel.symm.trans hmodel'
    cases hs : search spec model s with
    | link found => exact ⟨found, rfl⟩
    | noModel => exact absurd hchild (search_eq_noModel_iff.1 hs child)
    | noLink =>
        obtain ⟨child', hchild', hnone⟩ := search_eq_noLink_iff.1 hs
        have hsame : childModel? spec model s = some child :=
          (childModel?_eq_some_iff _).2 hchild
        rw [(childModel?_eq_some_iff child').2 hchild',
          Option.some.injEq] at hsame
        exact absurd (hsame ▸ hlink) (hnone link hlive)
  · rintro ⟨link, hs⟩
    obtain ⟨child, hchild, hfirst⟩ := (search_eq_link_iff link).1 hs
    exact ⟨spec, model, child, link, hspec, hmodel, hchild,
      hfirst.live, hfirst.holds⟩

/-! ## One turn -/

/-- A log without warnings. -/
def Quiet (log : Log) : Prop := ∀ entry ∈ log, entry.level ≠ .warning

theorem Quiet.concat {log : Log} (h : Quiet log) {entry : LogEntry}
    (he : entry.level ≠ .warning) :
    Quiet (log ++ [entry]) := by
  intro other hmem
  rcases List.mem_append.1 hmem with hmem | hmem
  · exact h other hmem
  · rw [List.mem_singleton.1 hmem]
    exact he

theorem quiet_detach {x : Situation κ} (h : Quiet x.log) :
    Quiet (Controller.detach x).log := by
  unfold Controller.detach
  split
  · exact h
  · split
    · exact h.concat (by simp)
    · exact h

theorem quiet_fasten (callback : κ) (parentLink childLink : Entity)
    {x : Situation κ} (h : Quiet x.log) :
    Quiet (fasten callback parentLink childLink x).log := by
  unfold fasten Situation.subscribe
  simp only [Situation.create, Situation.setJoint]
  cases x.endpoint.subscribe x.controller.topic callback with
  | ok endpoint => exact h.concat (by simp)
  | error e => exact h.concat (by simp)

section Turn

variable {callback : κ} {x : Situation κ} {spec : JointSpec} {model : Entity}
  (hvalid : x.controller.validConfig = true)
  (hinit : x.controller.initialized = false)
  (hspec : x.controller.spec = some spec)
  (hmodel : x.controller.model = some model)
include hvalid hinit hspec hmodel

/-- Before it attaches a controller spends its turn on a look for the child
link. -/
theorem preUpdate_eq_seek : preUpdate callback x =
    if (seek callback spec model x).controller.initialized = true then
      Controller.detach (seek callback spec model x)
    else seek callback spec model x := by
  simp [preUpdate, hvalid, hinit, discover_eq_seek callback hspec hmodel]

theorem preUpdate_of_link {parentLink link : Entity}
    (hparent : x.controller.parentLink = some parentLink)
    (hs : search spec model x.store = .link link) :
    preUpdate callback x =
      Controller.detach (fasten callback parentLink link x) := by
  have hseek : seek callback spec model x =
      fasten callback parentLink link x := by
    simp only [seek, hs]
    exact attach_eq_fasten callback hparent link
  have hinit' : (fasten callback parentLink link x).controller.initialized =
      true := rfl
  rw [preUpdate_eq_seek hvalid hinit hspec hmodel, hseek, if_pos hinit']

theorem preUpdate_of_noModel (hs : search spec model x.store = .noModel) :
    preUpdate callback x = if spec.suppressChildWarning = true then x
      else x.report (modelMissing spec) := by
  rw [preUpdate_eq_seek hvalid hinit hspec hmodel]
  simp only [seek, hs]
  by_cases hsuppress : spec.suppressChildWarning = true
  · simp [hsuppress, hinit]
  · simp [hsuppress, hinit, Situation.report]

theorem preUpdate_of_noLink (hs : search spec model x.store = .noLink) :
    preUpdate callback x = x.report (linkMissing spec) := by
  rw [preUpdate_eq_seek hvalid hinit hspec hmodel]
  simp [seek, hs, hinit, Situation.report]

end Turn

theorem initialized_detach (x : Situation κ) :
    (Controller.detach x).controller.initialized =
      x.controller.initialized := by
  unfold Controller.detach
  split
  · rfl
  · split <;> rfl

/-- What a controller has attached to: the joint that it adds to the store ties
the parent link that it knows to the first live link of the name under its child
model. -/
structure Joins (c : Controller) (s : Store) (y : Situation κ)
    (settings : JointSpec) (model parentLink child link : Entity) : Prop where
  known : c.spec = some settings
  own : c.model = some model
  parent : c.parentLink = some parentLink
  under : IsChildModel settings model s child
  first : s.IsFirst (s.LinkNamed child settings.childLink) link
  recorded : y.controller.childLink = some link
  calls : ∃ rest, y.calls = attaching s.create.1 (Joint.fixed parentLink link)
    c.topic ++ rest
  joint : s.Sound → s.create.2.WithinCapacity →
    y.store.joint? s.create.1 = some (Joint.fixed parentLink link)

/-- What a controller logs that sees no child link: that its child model is
missing, if the settings do not ask for silence about that, or that the model
has no such link. -/
inductive Misses (c : Controller) (s : Store) (log : Log) : Prop
  | model {settings : JointSpec} {model : Entity}
      (known : c.spec = some settings) (own : c.model = some model)
      (missing : ∀ child, ¬ IsChildModel settings model s child)
      (said : log = if settings.suppressChildWarning = true then []
        else [modelMissing settings])
  | link {settings : JointSpec} {model child : Entity}
      (known : c.spec = some settings) (own : c.model = some model)
      (found : IsChildModel settings model s child)
      (missing : ∀ link, s.has link = true →
        ¬ s.LinkNamed child settings.childLink link)
      (said : log = [linkMissing settings])

/-- Whether or not a command has come, attaching leaves the joint in the store
of the turn. -/
theorem joins_of_link {c : Controller} (callback : κ) {s : Store}
    (endpoint : Endpoint κ) {settings : JointSpec}
    {model parentLink link : Entity} (hspec : c.spec = some settings)
    (hmodel : c.model = some model) (hparent : c.parentLink = some parentLink)
    (hs : search settings model s = .link link) :
    ∃ child, Joins c s (Controller.detach (fasten callback parentLink link
      { controller := c, store := s,
        endpoint })) settings model parentLink child link := by
  obtain ⟨child, hchild, hfirst⟩ := (search_eq_link_iff link).1 hs
  let x : Situation κ := { controller := c, store := s, endpoint }
  obtain ⟨log, heq⟩ := fasten_eq callback parentLink link x
  refine ⟨child, ?_⟩
  rw [heq]
  cases ht : c.requested with
  | false =>
      rw [detach_of_untold (x := x.attached callback parentLink link log) ht]
      exact { known := hspec, own := hmodel, parent := hparent, under := hchild,
              first := hfirst,
              recorded := rfl, calls := ⟨[], rfl⟩
              joint := fun h hcap => Store.joint?_setJoint_created h hcap _ }
  | true =>
      obtain ⟨log', hreleased⟩ :=
        detach_of_told (x := x.attached callback parentLink link log) rfl ht
      rw [hreleased]
      refine { known := hspec, own := hmodel, parent := hparent,
               under := hchild, first := hfirst,
               recorded := rfl, calls := ⟨[.requestRemoval s.create.1], rfl⟩,
               joint := fun h hcap => ?_ }
      exact (Store.joint?_requestRemoval _ _ _).trans
        (Store.joint?_setJoint_created h hcap _)

/-- In a turn before it attaches a valid controller attaches if it sees its
child link, and otherwise only says what is missing. -/
theorem sights_or_misses {c : Controller} (h : c.Sound)
    (hvalid : c.validConfig = true) (hinit : c.initialized = false)
    (callback : κ) (s : Store) (endpoint : Endpoint κ) :
    (Sights c s ∧
      (c.meet ⟨.preUpdate callback, s,
        endpoint⟩).controller.initialized = true ∧
      Quiet (c.meet ⟨.preUpdate callback, s, endpoint⟩).log ∧
      ∃ settings model parentLink child link, Joins c s
        (c.meet ⟨.preUpdate callback, s, endpoint⟩) settings model
          parentLink child link) ∨
    (¬ Sights c s ∧ (c.meet ⟨.preUpdate callback, s, endpoint⟩).controller = c ∧
      Misses c s (c.meet ⟨.preUpdate callback, s, endpoint⟩).log) := by
  obtain ⟨settings, model, parentLink, hspec, hmodel, hparent⟩ := h.knows hvalid
  let x : Situation κ := { controller := c, store := s, endpoint }
  have hmeet : c.meet ⟨.preUpdate callback, s, endpoint⟩ =
      preUpdate callback x := rfl
  rw [hmeet, sights_iff hspec hmodel]
  cases hs : search settings model s with
  | link link =>
      obtain ⟨child, hjoins⟩ :=
        joins_of_link callback endpoint hspec hmodel hparent hs
      have hquiet := quiet_detach
        (quiet_fasten callback parentLink link (x := x) (by simp [x, Quiet]))
      rw [preUpdate_of_link (x := x) hvalid hinit hspec hmodel hparent hs]
      exact .inl ⟨⟨link, rfl⟩, initialized_detach _, hquiet,
        settings, model, parentLink, child, link, hjoins⟩
  | noModel =>
      rw [preUpdate_of_noModel (x := x) hvalid hinit hspec hmodel hs]
      refine .inr ⟨by simp, ?_,
        .model hspec hmodel (search_eq_noModel_iff.1 hs) ?_⟩
      · split <;> rfl
      · split <;> rfl
  | noLink =>
      obtain ⟨child, hchild, hnone⟩ := search_eq_noLink_iff.1 hs
      rw [preUpdate_of_noLink (x := x) hvalid hinit hspec hmodel hs]
      exact .inr ⟨by simp, rfl, .link hspec hmodel hchild hnone rfl⟩

/-- A turn of an attached controller gives no warning. -/
theorem quiet_of_initialized {c : Controller} (hinit : c.initialized = true)
    (callback : κ) (s : Store) (endpoint : Endpoint κ) :
    Quiet (c.meet ⟨.preUpdate callback, s, endpoint⟩).log := by
  have hmeet : c.meet ⟨.preUpdate callback, s, endpoint⟩ = Controller.detach
      { controller := c, store := s, endpoint } :=
          preUpdate_of_initialized callback hinit
  rw [hmeet]
  exact quiet_detach (by simp [Quiet])

/-- An encounter leaves a controller attached if it was, or if it is a turn in
which the controller sees its child link. -/
theorem initialized_meet_iff {c : Controller} (h : c.Sound) (n : Encounter κ) :
    (c.meet n).controller.initialized = true ↔
      c.initialized = true ∨ (∃ callback, n.demand = .preUpdate callback) ∧
      Sights c n.store := by
  obtain ⟨demand, s, endpoint⟩ := n
  cases demand with
  | configure e element =>
      have hphase := (World.configure_same h e element s).1
      show (c.configure e element s).1.initialized = true ↔ _
      simp [hphase]
  | request =>
      show c.request.initialized = true ↔ _
      simp [request]
  | preUpdate callback =>
      cases hinit : c.initialized with
      | true =>
          have hlasting :=
            (Lasting.meet h ⟨.preUpdate callback, s, endpoint⟩).initialized
              hinit
          simp [hlasting]
      | false =>
          cases hvalid : c.validConfig with
          | true =>
              rcases sights_or_misses h hvalid hinit callback s endpoint with
                ⟨hsights, hattached, -⟩ | ⟨hblind, hsame, -⟩
              · simp [hsights, hattached]
              · simp [hblind, hsame, hinit]
          | false =>
              have hmeet :
                  (c.meet ⟨.preUpdate callback, s, endpoint⟩).controller = c :=
                congrArg Situation.controller
                  (preUpdate_of_invalid callback hvalid hinit)
              have hspec := h.spec
              rw [hvalid, Option.isSome_eq_false_iff,
                Option.isNone_iff_eq_none] at hspec
              simp [hmeet, hinit, Sights, hspec]

/-! ## A whole life -/

/-- The controller before the encounter at a place of its life. -/
def before (life : List (Encounter κ)) (i : Nat) : Controller :=
  live {} (life.take i)

theorem sound_before (life : List (Encounter κ)) (i : Nat) :
    (before life i).Sound := sound_live _

theorem before_succ {life : List (Encounter κ)} {i : Nat} {n : Encounter κ}
    (hn : life[i]? = some n) :
    before life (i + 1) = ((before life i).meet n).controller := by
  rw [before, List.take_add_one, hn]
  exact live_concat _ _ _

theorem before_of_none {life : List (Encounter κ)} {i : Nat}
    (hn : life[i]? = none) :
    before life (i + 1) = before life i := by
  rw [before, List.take_add_one, hn]
  simp [before]

/-- At a place of its life the controller has a turn in which it sees its child
link. -/
def Sighted (life : List (Encounter κ)) (i : Nat) : Prop :=
  ∃ callback s endpoint, life[i]? = some ⟨.preUpdate callback, s, endpoint⟩ ∧
    Sights (before life i) s

/-- A controller is attached exactly if it has seen its child link before. -/
theorem initialized_before_iff (life : List (Encounter κ)) (i : Nat) :
    (before life i).initialized = true ↔ ∃ k < i, Sighted life k := by
  induction i with
  | zero =>
      have hnew : (before life 0).initialized = false := rfl
      simp [hnew]
  | succ i ih =>
      have hsplit : (∃ k < i + 1, Sighted life k) ↔ (∃ k < i, Sighted life k) ∨
          Sighted life i := by
        simp only [Nat.lt_succ_iff_lt_or_eq, or_and_right, exists_or,
          exists_eq_left]
      rw [hsplit, ← ih]
      cases hn : life[i]? with
      | none => simp [before_of_none hn, Sighted, hn]
      | some n =>
          rw [before_succ hn, initialized_meet_iff (sound_before life i)]
          obtain ⟨demand, s, endpoint⟩ := n
          cases demand <;> simp [Sighted, hn]

/-- A controller attaches in the turn in which it sees its child link for the
first time. -/
theorem becomes_initialized_iff (life : List (Encounter κ)) (i : Nat) :
    ((before life i).initialized = false ∧
      (before life (i + 1)).initialized = true) ↔
      Sighted life i ∧ ∀ k < i, ¬ Sighted life k := by
  rw [← Bool.not_eq_true, initialized_before_iff, initialized_before_iff]
  constructor
  · rintro ⟨hnone, k, hk, hsighted⟩
    have hki : k = i := by
      by_contra hne
      exact hnone ⟨k, by omega, hsighted⟩
    exact ⟨hki ▸ hsighted, fun l hl hl' => hnone ⟨l, hl, hl'⟩⟩
  · rintro ⟨hsighted, hnone⟩
    exact ⟨fun ⟨k, hk, hk'⟩ => hnone k hk hk', i, Nat.lt_succ_self i, hsighted⟩

/-- An earlier configuration of a life found what it asked for in the store that
it met. -/
def ConfiguredWith (life : List (Encounter κ)) (i : Nat) (e : Entity)
    (found : Resolution) : Prop :=
  ∃ k < i, ∃ element s endpoint,
    life[k]? = some ⟨.configure e element, s, endpoint⟩ ∧
    resolve e element s = .ok found

/-- The controller knows what a configuration found for a model. -/
structure KnowsFrom (c : Controller) (e : Entity) (found : Resolution) :
    Prop where
  model : c.model = some e
  spec : c.spec = some found.spec
  parentLink : c.parentLink = some found.parentLink
  topic : c.topic = found.topic

/-- What a controller knows after an encounter it knew before, or the encounter
is the configuration that found it. -/
theorem knows_meet {c : Controller} (n : Encounter κ)
    (hvalid : (c.meet n).controller.validConfig = true) :
    (c.validConfig = true ∧ ∀ {e : Entity} {found : Resolution},
      KnowsFrom c e found →
      KnowsFrom (c.meet n).controller e found) ∨
    ∃ e element found, n.demand = .configure e element ∧
      resolve e element n.store = .ok found ∧
      KnowsFrom (c.meet n).controller e found := by
  obtain ⟨demand, s, endpoint⟩ := n
  cases demand with
  | request => exact .inl ⟨hvalid, fun h => { h with }⟩
  | preUpdate callback =>
      have hturn : Turn callback { controller := c, store := s, endpoint }
        (c.meet ⟨.preUpdate callback, s, endpoint⟩) := preUpdate_turn callback _
      generalize c.meet ⟨.preUpdate callback, s, endpoint⟩ = y at hturn hvalid ⊢
      cases hturn with
      | idle _ => exact .inl ⟨hvalid, id⟩
      | attach _ _ => exact .inl ⟨hvalid, fun h => { h with }⟩
      | attachAndLetGo _ _ => exact .inl ⟨hvalid, fun h => { h with }⟩
      | letGo _ _ _ => exact .inl ⟨hvalid, fun h => { h with }⟩
  | configure e element =>
      have hmeet : (c.meet ⟨.configure e element, s, endpoint⟩).controller =
          (c.configure e element s).1 := rfl
      rw [hmeet] at hvalid ⊢
      rcases configure_cases c e element s with
        heq | ⟨-, heq⟩ | ⟨found, -, hfound, heq⟩
      · rw [heq] at hvalid ⊢
        exact .inl ⟨hvalid, id⟩
      · rw [heq] at hvalid ⊢
        exact .inl ⟨hvalid, fun h => { h with }⟩
      · rw [heq]
        exact .inr ⟨e, element, found, rfl, hfound, ⟨rfl, rfl, rfl, rfl⟩⟩

/-- A valid controller knows what one of its configurations found. -/
theorem knows_before (life : List (Encounter κ)) (i : Nat)
    (hvalid : (before life i).validConfig = true) :
    ∃ e found, ConfiguredWith life i e found ∧
      KnowsFrom (before life i) e found := by
  induction i with
  | zero => cases hvalid
  | succ i ih =>
      have hlater : ∀ {e : Entity} {found : Resolution},
          ConfiguredWith life i e found →
          ConfiguredWith life (i + 1) e found := by
        rintro e found ⟨k, hk, hrest⟩
        exact ⟨k, Nat.lt_succ_of_lt hk, hrest⟩
      cases hn : life[i]? with
      | none =>
          rw [before_of_none hn] at hvalid ⊢
          obtain ⟨e, found, hconfigured, hknows⟩ := ih hvalid
          exact ⟨e, found, hlater hconfigured, hknows⟩
      | some n =>
          rw [before_succ hn] at hvalid ⊢
          rcases knows_meet n hvalid with ⟨hbefore, hkeeps⟩ |
            ⟨e, element, found, hd, hr, hknows⟩
          · obtain ⟨e, found, hconfigured, hknows⟩ := ih hbefore
            exact ⟨e, found, hlater hconfigured, hkeeps hknows⟩
          · refine ⟨e, found,
              ⟨i, Nat.lt_succ_self i, element, n.store, n.endpoint,
                ?_, hr⟩, hknows⟩
            rw [hn, ← hd]

/-- A validly configured controller attaches in the first turn in which there is
a child link for it to see, and not before. Then it joins the parent link found
by its configuration to the first such link, until then it logs what is missing,
and from then on its turns give no warning. -/
theorem attaches_at_first_sight (life : List (Encounter κ)) {i : Nat}
    {callback : κ} {s : Store} {endpoint : Endpoint κ}
    (hn : life[i]? = some ⟨.preUpdate callback, s, endpoint⟩)
    (hvalid : (before life i).validConfig = true) :
    (∃ e found, ConfiguredWith life i e found ∧
      KnowsFrom (before life i) e found) ∧
    ((before life i).initialized = false ∧
      (before life (i + 1)).initialized = true ↔
      Sighted life i ∧ ∀ k < i, ¬ Sighted life k) ∧
    ((before life i).initialized = false →
      (before life (i + 1)).initialized = true →
      ∃ settings model parentLink child link, Joins (before life i) s
        ((before life i).meet ⟨.preUpdate callback, s, endpoint⟩)
        settings model parentLink child link) ∧
    ((before life (i + 1)).initialized = false → Misses (before life i) s
      ((before life i).meet ⟨.preUpdate callback, s, endpoint⟩).log) ∧
    ((before life (i + 1)).initialized = true →
      Quiet ((before life i).meet ⟨.preUpdate callback, s, endpoint⟩).log) := by
  have hsound := sound_before life i
  have hsucc := before_succ hn
  refine ⟨knows_before life i hvalid, ?_, ?_, ?_, ?_⟩
  · exact becomes_initialized_iff life i
  · intro hinit hattached
    rcases sights_or_misses hsound hvalid hinit callback s endpoint with
      ⟨-, -, -, hjoins⟩ | ⟨-, hsame, -⟩
    · exact hjoins
    · rw [hsucc, hsame, hinit] at hattached
      cases hattached
  · intro hnot
    have hinit : (before life i).initialized = false := by
      rw [← Bool.not_eq_true]
      intro hinit
      rw [hsucc, (Lasting.meet hsound _).initialized hinit] at hnot
      cases hnot
    rcases sights_or_misses hsound hvalid hinit callback s endpoint with
      ⟨-, hattached, -⟩ | ⟨-, -, hmisses⟩
    · rw [hsucc, hattached] at hnot
      cases hnot
    · exact hmisses
  · intro hattached
    cases hinit : (before life i).initialized with
    | true => exact quiet_of_initialized hinit callback s endpoint
    | false =>
        rcases sights_or_misses hsound hvalid hinit callback s endpoint with
          ⟨-, -, hquiet, -⟩ | ⟨-, hsame, -⟩
        · exact hquiet
        · rw [hsucc, hsame, hinit] at hattached
          cases hattached

/-- A child model that comes without its link is not enough; of two links that
come later the first is the one that is joined. A command that comes before
changes nothing about it. -/
theorem attaches_to_late_link :
    let car := ({} : Store).spawnModelWithLinks "car" ["body"]
    let cart := car.2.2.spawnModel "cart"
    let eyes := cart.2.spawnLinks cart.1 ["eye", "eye"]
    let element := Session.jointElement "body" "cart" "eye"
    let life : List (Encounter Unit) :=
      [⟨.configure car.1 element, car.2.2, .refusing⟩,
      ⟨.preUpdate (), car.2.2, .refusing⟩,
      ⟨.preUpdate (), cart.2, .refusing⟩,
      ⟨.request, eyes.2, .refusing⟩,
      ⟨.preUpdate (), eyes.2, .refusing⟩]
    (before life 4).validConfig = true ∧
      (Sighted life 4 ∧ ∀ k < 4, ¬ Sighted life k) ∧
      ∃ settings model parentLink child link, Joins (before life 4) eyes.2
        ((before life 4).meet ⟨.preUpdate (), eyes.2, .refusing⟩)
        settings model parentLink child link := by
  intro car cart eyes element life
  have hvalid : (before life 4).validConfig = true := by decide +kernel
  have hbefore : (before life 4).initialized = false := by decide +kernel
  have hafter : (before life 5).initialized = true := by decide +kernel
  obtain ⟨-, hfirst, hjoins, -⟩ :=
    attaches_at_first_sight life (i := 4) rfl hvalid
  exact ⟨hvalid, hfirst.1 ⟨hbefore, hafter⟩, hjoins hbefore hafter⟩

end Controller

end Linkage
