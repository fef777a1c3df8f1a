import Linkage.Proofs.Joint.Encounters
import Linkage.Proofs.Joint.Routing
import Linkage.Proofs.Store.Selection

/-!
# What a configuration decides

A configuration makes seven checks: three look at the store and the topics, and
four at the parameters of the element. It fails at the first that does not pass
and reports the cause, and all that it leaves then is that the controller has
been configured. If all of them pass, the settings, the parent link and the
topic are what the checks found.

Nothing that happens afterwards makes a difference to what was decided. A
configuration that comes later is ignored, with a warning. A controller whose
configuration failed can still be told to let go, but in its turns it does
nothing at all.

## Main results

* `Controller.resolve_eq_ok_iff_resolves`: what the checks find when all of them
  pass.
* `Controller.resolve_eq_error_iff`: the cause is that of the first check that
  fails.
* `Controller.Decided.of_live`: what lasts after a configuration.
* `Controller.configuration_of_unconfigured`: the outcome of a configuration,
  for good.
-/

namespace Linkage

namespace Element

variable {element : Element} {key : String}

theorem trimmed?_eq_none_iff : element.trimmed? key = none ↔
    element.text? key = none := by
  simp [trimmed?]

theorem text?_ne_none_of_trimmed {value : String}
    (h : element.trimmed? key = some value) :
    element.text? key ≠ none := fun hnone => by
  rw [trimmed?_eq_none_iff.2 hnone] at h
  cases h

theorem readOr_eq_ok_iff {α : Type} {reader : List Char → Option α}
    {default value : α} :
    element.readOr reader key default = .ok value ↔
      (element.text? key = none ∧ value = default) ∨
        ∃ raw, element.text? key = some raw ∧
          reader (Text.trim raw.toList) = some value := by
  unfold readOr read
  cases htext : element.text? key with
  | none => simp [Except.map, eq_comm]
  | some raw =>
      cases hread : reader (Text.trim raw.toList) <;> simp [Except.map, hread]

theorem readOr_eq_error_iff {α : Type}
    {reader : List Char → Option α} {default : α}
    {error : UnreadableParameter} :
    element.readOr reader key default = .error error ↔
      ∃ raw, element.text? key = some raw ∧
        reader (Text.trim raw.toList) = none ∧
        error = ⟨element.name, key, raw⟩ := by
  unfold readOr read
  cases htext : element.text? key with
  | none => simp [Except.map]
  | some raw =>
      cases hread : reader (Text.trim raw.toList) <;>
        simp [Except.map, hread, eq_comm]

end Element

namespace Controller

/-! ## The checks -/

/-- The topics that a configuration tries: the override, if there is one, and
the default topic. -/
def topicsFor (element : Element) (modelName : String) : List String :=
  (element.trimmed? "topic").toList ++ [JointSpec.defaultTopic modelName]

/-- The switch that silences a warning is off unless the element turns it on. -/
def Switched (element : Element) (flag : Bool) : Prop :=
  (element.text? "suppress_child_warning" = none ∧ flag = false) ∨
    ∃ raw, element.text? "suppress_child_warning" = some raw ∧
      ScalarType.readFlag? (Text.trim raw.toList) = some flag

/-- The topic is the repaired override if that is valid, and the repaired
default otherwise. -/
def Chosen (element : Element) (modelName topic : String) : Prop :=
  (∃ override, element.trimmed? "topic" = some override ∧
    Topic.sanitize override = some topic) ∨
  (∀ override, element.trimmed? "topic" = some override →
    Topic.sanitize override = none) ∧
    Topic.sanitize (JointSpec.defaultTopic modelName) = some topic

/-- A controller can be configured for an entity, as the element says. -/
structure Configurable (e : Entity) (element : Element) (s : Store) : Prop where
  live : s.has e = true
  model : s.isModel e = true
  required : ∀ key ∈ ["parent_link", "child_model", "child_link"],
    element.text? key ≠ none
  readable : ∀ raw, element.text? "suppress_child_warning" = some raw →
    ∃ flag, ScalarType.readFlag? (Text.trim raw.toList) = some flag
  linked : ∃ name link, element.trimmed? "parent_link" = some name ∧
    s.has link = true ∧
    s.LinkNamed e name link
  reachable : ∃ candidate ∈ topicsFor element (s.nameOrEmpty e),
    (Topic.sanitize candidate).isSome = true

/-- What a configuration finds if all checks pass. -/
structure Resolves (e : Entity) (element : Element) (s : Store)
    (found : Resolution) : Prop where
  live : s.has e = true
  model : s.isModel e = true
  parentName : element.trimmed? "parent_link" = some found.spec.parentLink
  childModel : element.trimmed? "child_model" = some found.spec.childModel
  childLink : element.trimmed? "child_link" = some found.spec.childLink
  switched : Switched element found.spec.suppressChildWarning
  override : element.trimmed? "topic" = found.spec.topic
  parentLink : s.IsFirst (s.LinkNamed e found.spec.parentLink) found.parentLink
  topic : Chosen element (s.nameOrEmpty e) found.topic

/-- A check that a configuration makes. -/
inductive Check
  | model
  | parentLink
  | childModel
  | childLink
  | switch
  | link
  | topic
  deriving DecidableEq, Repr

/-- The checks, in the order in which they are made. -/
def Check.all : List Check := [.model, .parentLink, .childModel, .childLink,
  .switch, .link, .topic]

/-- The check does not pass, for the cause. -/
def Check.Fails (e : Entity) (element : Element) (s : Store) :
    Check → JointConfigError → Prop
  | .model, cause =>
      ¬ (s.has e = true ∧ s.isModel e = true) ∧ cause = .notAModel e
  | .parentLink, cause =>
      element.text? "parent_link" = none ∧
      cause = .missingParameter "parent_link"
  | .childModel, cause =>
      element.text? "child_model" = none ∧
      cause = .missingParameter "child_model"
  | .childLink, cause =>
      element.text? "child_link" = none ∧ cause = .missingParameter "child_link"
  | .switch, cause =>
      ∃ raw, element.text? "suppress_child_warning" = some raw ∧
        ScalarType.readFlag? (Text.trim raw.toList) = none ∧
          cause = .invalidParameter ⟨element.name,
            "suppress_child_warning", raw⟩
  | .link, cause =>
      ∃ name, element.trimmed? "parent_link" = some name ∧
        (∀ link, s.has link = true → ¬ s.LinkNamed e name link) ∧
          cause = .parentLinkNotFound name (s.nameOrEmpty e)
  | .topic, cause =>
      (∀ candidate ∈ topicsFor element (s.nameOrEmpty e),
        Topic.sanitize candidate = none) ∧
        cause = .noValidTopic (topicsFor element (s.nameOrEmpty e))

/-- The first check that does not pass fails for the cause. -/
def FirstFault (e : Entity) (element : Element) (s : Store)
    (cause : JointConfigError) : Prop :=
  ∃ passed check rest, Check.all = passed ++ check :: rest ∧
    (∀ earlier ∈ passed, ∀ other, ¬ earlier.Fails e element s other) ∧
      check.Fails e element s cause

theorem bind_eq_error_iff {ε α β : Type} {x : Except ε α}
    {f : α → Except ε β} {cause : ε} :
    (x >>= f) = .error cause ↔ x = .error cause ∨ ∃ a, x = .ok a ∧
    f a = .error cause := by
  cases x <;> simp [bind, Except.bind]

section Resolve

variable {e : Entity} {element : Element} {s : Store}

theorem isValidModel_iff : s.isValidModel e = true ↔ s.has e = true ∧
    s.isModel e = true := by
  simp [Store.isValidModel]

/-- The first topic that can be repaired is the one chosen. -/
theorem firstValid_topicsFor_eq_some_iff {modelName topic : String} :
    Topic.firstValid (topicsFor element modelName) = some topic ↔
      Chosen element modelName topic := by
  have hdefault : [JointSpec.defaultTopic modelName].findSome? Topic.sanitize =
      Topic.sanitize (JointSpec.defaultTopic modelName) := by
    rw [List.findSome?_cons]
    cases Topic.sanitize (JointSpec.defaultTopic modelName) <;> rfl
  unfold Chosen Topic.firstValid topicsFor
  cases hoverride : element.trimmed? "topic" with
  | none => simp only [Option.toList_none, List.nil_append, hdefault]; simp
  | some override =>
      rw [Option.toList_some, List.singleton_append, List.findSome?_cons]
      cases hs : Topic.sanitize override <;> simp [hs, hdefault]

theorem resolve_eq_ok_iff_resolves {found : Resolution} :
    resolve e element s = .ok found ↔ Resolves e element s found := by
  rw [resolve_eq_ok_iff, isValidModel_iff, JointSpec.ofElement_eq_ok_iff,
    Element.readOr_eq_ok_iff, Store.linkNamed?_eq_some_iff]
  constructor
  · rintro ⟨⟨hlive, hmodel⟩, ⟨hparent, hchild, hlink, hswitch, htopic⟩,
      hfirst, hchosen⟩
    refine ⟨hlive, hmodel, hparent, hchild, hlink, hswitch, htopic, hfirst, ?_⟩
    rwa [← firstValid_topicsFor_eq_some_iff, topicsFor, htopic]
  · rintro ⟨hlive, hmodel, hparent, hchild, hlink, hswitch, htopic,
      hfirst, hchosen⟩
    refine ⟨⟨hlive, hmodel⟩, ⟨hparent, hchild, hlink, hswitch, htopic⟩,
      hfirst, ?_⟩
    rwa [← firstValid_topicsFor_eq_some_iff, topicsFor, htopic] at hchosen

theorem Resolves.configurable {found : Resolution}
    (h : Resolves e element s found) :
    Configurable e element s := by
  refine { live := h.live, model := h.model, required := ?_, readable := ?_
           linked := ⟨_, found.parentLink, h.parentName, h.parentLink.live,
             h.parentLink.holds⟩
           reachable := ?_ }
  · intro key hkey
    simp only [List.mem_cons, List.not_mem_nil, or_false] at hkey
    rcases hkey with rfl | rfl | rfl
    · exact Element.text?_ne_none_of_trimmed h.parentName
    · exact Element.text?_ne_none_of_trimmed h.childModel
    · exact Element.text?_ne_none_of_trimmed h.childLink
  · intro raw hraw
    rcases h.switched with ⟨hnone, -⟩ | ⟨raw', hraw', hread⟩
    · cases hraw.symm.trans hnone
    · cases hraw.symm.trans hraw'
      exact ⟨_, hread⟩
  · obtain ⟨candidate, hcandidate, hsanitize⟩ :=
      List.exists_of_findSome?_eq_some
        (firstValid_topicsFor_eq_some_iff.2 h.topic)
    exact ⟨candidate, hcandidate, Option.isSome_iff_exists.2 ⟨_, hsanitize⟩⟩

namespace Configurable

variable (h : Configurable e element s)
include h

theorem exists_trimmed (k : String)
    (hk : k ∈ ["parent_link", "child_model", "child_link"]) :
    ∃ name, element.trimmed? k = some name :=
  Option.ne_none_iff_exists'.1 fun hnone =>
    h.required k hk (Element.trimmed?_eq_none_iff.1 hnone)

theorem exists_switched : ∃ flag, Switched element flag := by
  cases hraw : element.text? "suppress_child_warning" with
  | none => exact ⟨false, .inl ⟨hraw, rfl⟩⟩
  | some raw =>
      obtain ⟨flag, hread⟩ := h.readable raw hraw
      exact ⟨flag, .inr ⟨raw, hraw, hread⟩⟩

theorem exists_parentLink :
    ∃ name link, element.trimmed? "parent_link" = some name ∧
    s.IsFirst (s.LinkNamed e name) link := by
  obtain ⟨name, named, hname, hlive, hnamed⟩ := h.linked
  obtain ⟨link, hfirst⟩ : ∃ link, s.linkNamed? e name = some link :=
    Option.ne_none_iff_exists'.1 fun hnone =>
      (Store.linkNamed?_eq_none_iff e name).1 hnone named hlive hnamed
  exact ⟨name, link, hname, (Store.linkNamed?_eq_some_iff e name link).1 hfirst⟩

theorem exists_chosen : ∃ topic, Chosen element (s.nameOrEmpty e) topic := by
  obtain ⟨candidate, hcandidate, hvalid⟩ := h.reachable
  obtain ⟨topic, htopic⟩ :=
    Option.isSome_iff_exists.1
      (List.findSome?_isSome_iff.2 ⟨candidate, hcandidate, hvalid⟩)
  exact ⟨topic, firstValid_topicsFor_eq_some_iff.1 htopic⟩

end Configurable

/-- The checks pass if and only if a controller can be configured. -/
theorem exists_resolves_iff :
    (∃ found, Resolves e element s found) ↔ Configurable e element s := by
  refine ⟨fun ⟨_, h⟩ => h.configurable, fun h => ?_⟩
  obtain ⟨parentName, parentLink, hparent, hfirst⟩ := h.exists_parentLink
  obtain ⟨childModel, hchild⟩ := h.exists_trimmed "child_model" (by simp)
  obtain ⟨childLink, hlink⟩ := h.exists_trimmed "child_link" (by simp)
  obtain ⟨flag, hswitched⟩ := h.exists_switched
  obtain ⟨topic, hchosen⟩ := h.exists_chosen
  exact ⟨⟨⟨parentName, childModel, childLink, element.trimmed? "topic", flag⟩,
      parentLink, topic⟩,
    { live := h.live, model := h.model, parentName := hparent,
      childModel := hchild, childLink := hlink, switched := hswitched,
      override := rfl, parentLink := hfirst, topic := hchosen }⟩

/-- A check fails for one cause only. -/
theorem Check.Fails.unique {check : Check} {cause other : JointConfigError}
    (h : check.Fails e element s cause) (h' : check.Fails e element s other) :
    cause = other := by
  cases check with
  | model | parentLink | childModel | childLink | topic =>
      exact h.2.trans h'.2.symm
  | switch =>
      obtain ⟨raw, hraw, -, rfl⟩ := h
      obtain ⟨raw', hraw', -, rfl⟩ := h'
      cases hraw.symm.trans hraw'
      rfl
  | link =>
      obtain ⟨name, hname, -, rfl⟩ := h
      obtain ⟨name', hname', -, rfl⟩ := h'
      cases hname.symm.trans hname'
      rfl

/-- There is one first fault at most. -/
theorem FirstFault.unique {cause other : JointConfigError}
    (h : FirstFault e element s cause) (h' : FirstFault e element s other) :
    cause = other := by
  obtain ⟨passed, check, rest, hall, hpassed, hfails⟩ := h
  obtain ⟨passed', check', rest', hall', hpassed', hfails'⟩ := h'
  obtain ⟨-, rfl⟩ := eq_of_splits (hall.symm.trans hall')
    (fun hbefore => hpassed' check (hbefore.subset (by simp)) cause hfails)
    (fun hbefore => hpassed check' (hbefore.subset (by simp)) other hfails')
  exact hfails.unique hfails'

theorem required_eq_error_iff {key : String} {cause : JointConfigError} :
    JointSpec.required element key = .error cause ↔
      element.text? key = none ∧ cause = .missingParameter key := by
  rw [← Element.trimmed?_eq_none_iff]
  unfold JointSpec.required
  cases element.trimmed? key <;> simp [eq_comm]

/-- Reading the settings breaks off at the first parameter that is missing or
unreadable. -/
theorem ofElement_cases {cause : JointConfigError}
    (h : JointSpec.ofElement element = .error cause) :
    JointSpec.required element "parent_link" = .error cause ∨
    ∃ parent, JointSpec.required element "parent_link" = .ok parent ∧
      (JointSpec.required element "child_model" = .error cause ∨
      ∃ child, JointSpec.required element "child_model" = .ok child ∧
        (JointSpec.required element "child_link" = .error cause ∨
        ∃ link, JointSpec.required element "child_link" = .ok link ∧
          ∃ fault, cause = .invalidParameter fault ∧
            element.readOr ScalarType.readFlag?
            "suppress_child_warning" false = .error fault)) := by
  unfold JointSpec.ofElement at h
  refine (bind_eq_error_iff.1 h).imp_right fun ⟨parent, hparent, h⟩ =>
    ⟨parent, hparent, ?_⟩
  refine (bind_eq_error_iff.1 h).imp_right fun ⟨child, hchild, h⟩ =>
    ⟨child, hchild, ?_⟩
  refine (bind_eq_error_iff.1 h).imp_right fun ⟨link, hlink, h⟩ =>
    ⟨link, hlink, ?_⟩
  cases hswitch : element.readOr ScalarType.readFlag?
      "suppress_child_warning" false with
  | ok flag => rw [hswitch] at h; cases h
  | error error => rw [hswitch] at h; cases h; exact ⟨error, rfl, rfl⟩

/-- Of an element that describes no settings, the first parameter at fault is
reported. -/
theorem firstFault_of_ofElement {cause : JointConfigError}
    (hmodel : s.has e = true ∧ s.isModel e = true)
    (h : JointSpec.ofElement element = .error cause) :
    FirstFault e element s cause := by
  rcases ofElement_cases h with hfault | ⟨parent, hparent, h⟩
  · exact ⟨[.model], .parentLink, _, rfl, by simp [Check.Fails, hmodel],
      required_eq_error_iff.1 hfault⟩
  have hparent' :=
    Element.text?_ne_none_of_trimmed (JointSpec.required_eq_ok_iff.1 hparent)
  rcases h with hfault | ⟨child, hchild, h⟩
  · exact ⟨[.model, .parentLink], .childModel, _, rfl,
      by simp [Check.Fails, hmodel, hparent'],
      required_eq_error_iff.1 hfault⟩
  have hchild' := Element.text?_ne_none_of_trimmed
    (JointSpec.required_eq_ok_iff.1 hchild)
  rcases h with hfault | ⟨link, hlink, error, rfl, hswitch⟩
  · exact ⟨[.model, .parentLink, .childModel], .childLink, _, rfl,
      by simp [Check.Fails, hmodel, hparent', hchild'],
      required_eq_error_iff.1 hfault⟩
  have hlink' := Element.text?_ne_none_of_trimmed
    (JointSpec.required_eq_ok_iff.1 hlink)
  obtain ⟨raw, hraw, hread, rfl⟩ := Element.readOr_eq_error_iff.1 hswitch
  exact ⟨[.model, .parentLink, .childModel, .childLink], .switch, _, rfl,
    by simp [Check.Fails, hmodel, hparent', hchild', hlink'], raw,
    hraw, hread, rfl⟩

/-- Where the element describes settings, only the last two checks can fail. -/
theorem not_fails_of_ofElement {spec : JointSpec}
    (hmodel : s.has e = true ∧ s.isModel e = true)
    (h : JointSpec.ofElement element = .ok spec) :
    ∀ check ∈ [Check.model, .parentLink, .childModel, .childLink,
      .switch], ∀ cause, ¬ check.Fails e element s cause := by
  obtain ⟨hparent, hchild, hlink, hswitch, -⟩ :=
    JointSpec.ofElement_eq_ok_iff.1 h
  intro check hcheck cause hfails
  simp only [List.mem_cons, List.not_mem_nil, or_false] at hcheck
  rcases hcheck with rfl | rfl | rfl | rfl | rfl
  · exact hfails.1 hmodel
  · exact Element.text?_ne_none_of_trimmed hparent hfails.1
  · exact Element.text?_ne_none_of_trimmed hchild hfails.1
  · exact Element.text?_ne_none_of_trimmed hlink hfails.1
  · obtain ⟨raw, hraw, hread, -⟩ := hfails
    rw [Element.readOr_eq_error_iff.2 ⟨raw, hraw, hread, rfl⟩] at hswitch
    cases hswitch

/-- Where everything is found, no check fails. -/
theorem Resolves.not_fails {found : Resolution} (h : Resolves e element s found)
    (check : Check) (cause : JointConfigError) :
    ¬ check.Fails e element s cause := by
  obtain ⟨-, hspec, -⟩ := resolve_eq_ok_iff.1 (resolve_eq_ok_iff_resolves.2 h)
  have hdescribed := not_fails_of_ofElement ⟨h.live, h.model⟩ hspec
  cases check with
  | model | parentLink | childModel | childLink | switch =>
      exact hdescribed _ (by simp) cause
  | link =>
      rintro ⟨name, hname, hnone, -⟩
      cases h.parentName.symm.trans hname
      exact hnone found.parentLink h.parentLink.live h.parentLink.holds
  | topic =>
      rintro ⟨hnone, -⟩
      obtain ⟨candidate, hcandidate, hvalid⟩ := h.configurable.reachable
      simp [hnone candidate hcandidate] at hvalid

/-- Resolving breaks off at the model, in the settings, at the parent link or at
the topic. -/
theorem resolve_cases {cause : JointConfigError}
    (h : resolve e element s = .error cause) :
    (s.isValidModel e = false ∧ cause = .notAModel e) ∨
    s.isValidModel e = true ∧
      (JointSpec.ofElement element = .error cause ∨
      ∃ spec, JointSpec.ofElement element = .ok spec ∧
        ((s.linkNamed? e spec.parentLink = none ∧
          cause = .parentLinkNotFound spec.parentLink (s.nameOrEmpty e)) ∨
        s.linkNamed? e spec.parentLink ≠ none ∧
          Topic.firstValid (spec.topicCandidates (s.nameOrEmpty e)) = none ∧
            cause = .noValidTopic
              (spec.topicCandidates (s.nameOrEmpty e)))) := by
  unfold resolve at h
  cases hvalid : s.isValidModel e with
  | false =>
      rw [hvalid] at h
      cases h
      exact .inl ⟨rfl, rfl⟩
  | true =>
      rw [hvalid] at h
      refine .inr ⟨rfl, (bind_eq_error_iff.1 h).imp_right ?_⟩
      rintro ⟨spec, hspec, h⟩
      refine ⟨spec, hspec, ?_⟩
      cases hlink : s.linkNamed? e spec.parentLink with
      | none =>
          rw [hlink] at h
          cases h
          exact .inl ⟨rfl, rfl⟩
      | some parentLink =>
          rw [hlink] at h
          cases htopic :
              Topic.firstValid (spec.topicCandidates (s.nameOrEmpty e)) with
          | none =>
              simp only [htopic] at h
              cases h
              exact .inr ⟨Option.some_ne_none _, rfl, rfl⟩
          | some topic =>
              simp only [htopic] at h
              cases h

/-- A configuration that fails reports its first fault. -/
theorem firstFault_of_resolve {cause : JointConfigError}
    (h : resolve e element s = .error cause) :
    FirstFault e element s cause := by
  rcases resolve_cases h with ⟨hinvalid, rfl⟩ |
    ⟨hvalid, hfault | ⟨spec, hspec, h⟩⟩
  · refine ⟨[], .model, _, rfl, by simp, ?_, rfl⟩
    rw [← isValidModel_iff, hinvalid]
    exact Bool.false_ne_true
  · exact firstFault_of_ofElement (isValidModel_iff.1 hvalid) hfault
  have hpassed := not_fails_of_ofElement (isValidModel_iff.1 hvalid) hspec
  obtain ⟨hparent, -, -, -, htopic⟩ := JointSpec.ofElement_eq_ok_iff.1 hspec
  rcases h with ⟨hunlinked, rfl⟩ | ⟨hlinked, hinvalid, rfl⟩
  · exact ⟨[.model, .parentLink, .childModel, .childLink, .switch], .link,
      _, rfl, hpassed,
      spec.parentLink, hparent,
      (Store.linkNamed?_eq_none_iff e _).1 hunlinked, rfl⟩
  · have hlink : ∀ other, ¬ Check.link.Fails e element s other := by
      rintro other ⟨name, hname, hnone, -⟩
      cases hname.symm.trans hparent
      exact hlinked ((Store.linkNamed?_eq_none_iff e _).2 hnone)
    have htopics :
        spec.topicCandidates (s.nameOrEmpty e) =
          topicsFor element (s.nameOrEmpty e) := by
      rw [topicsFor, htopic]
      rfl
    rw [htopics] at hinvalid ⊢
    refine ⟨[.model, .parentLink, .childModel, .childLink, .switch] ++ [.link],
      .topic, _, rfl,
      fun check hcheck => ?_, List.findSome?_eq_none_iff.1 hinvalid, rfl⟩
    rcases List.mem_append.1 hcheck with hcheck | hcheck
    · exact hpassed check hcheck
    · rw [List.mem_singleton.1 hcheck]
      exact hlink

/-- The cause is that of the first check that does not pass. -/
theorem resolve_eq_error_iff {cause : JointConfigError} :
    resolve e element s = .error cause ↔ FirstFault e element s cause := by
  refine ⟨firstFault_of_resolve, fun h => ?_⟩
  cases hr : resolve e element s with
  | error other => rw [(firstFault_of_resolve hr).unique h]
  | ok found =>
      obtain ⟨passed, check, rest, -, -, hfails⟩ := h
      exact absurd hfails
        ((resolve_eq_ok_iff_resolves.1 hr).not_fails check cause)

end Resolve

/-! ## The outcome -/

/-- The controller once everything that its element asks for has been found. -/
def resolvedTo (c : Controller) (e : Entity) (found : Resolution) :
    Controller :=
  { c with
    configured := true
    validConfig := true
    model := some e
    spec := some found.spec
    parentLink := some found.parentLink
    topic := found.topic }

/-- The error that is logged when a configuration fails. -/
def failure (cause : JointConfigError) : LogEntry :=
  ⟨.error, cause.message ++ ". Failed to initialize."⟩

/-- The warning that is logged when a configuration is ignored. -/
def ignored : LogEntry :=
  ⟨.warning,
    "DetachableJoint is already configured; ignoring second configuration"⟩

/-- What the first configuration of a controller leaves: the store, the endpoint
and the calls are as they were. -/
inductive Outcome {κ : Type} (e : Entity) (element : Element)
    (x : Situation κ) :
    Situation κ → Prop
  | valid {found : Resolution} (resolves : Resolves e element x.store found) :
      Outcome e element x
        { x with controller := x.controller.resolvedTo e found }
  | invalid {cause : JointConfigError}
      (fault : FirstFault e element x.store cause) :
      Outcome e element x
        { x with controller := { x.controller with configured := true },
                 log := [failure cause] }

section Outcome

variable {κ : Type} {c : Controller} {e : Entity} {element : Element}
  {x y : Situation κ}

theorem Outcome.configured (h : Outcome e element x y) :
    y.controller.configured = true := by
  cases h <;> rfl

/-- The controller is made valid exactly if all checks pass. -/
theorem Outcome.validConfig_iff (h : Outcome e element x y)
    (hv : x.controller.validConfig = false) :
    y.controller.validConfig = true ↔ Configurable e element x.store := by
  rw [← exists_resolves_iff]
  cases h with
  | valid resolves => exact iff_of_true rfl ⟨_, resolves⟩
  | invalid fault =>
      obtain ⟨passed, check, rest, -, -, hfails⟩ := fault
      refine iff_of_false (by simp [hv]) ?_
      rintro ⟨found, hfound⟩
      exact hfound.not_fails check _ hfails

theorem outcome_of_meet (h : c.configured = false) {n : Encounter κ}
    (hn : n.demand = .configure e element) :
    Outcome e element (n.situation c) (c.meet n) := by
  simp only [meet, hn, configure, h, Bool.false_eq_true, if_false]
  cases hr : resolve e element n.store with
  | error cause => exact .invalid (resolve_eq_error_iff.1 hr)
  | ok found => exact .valid (resolve_eq_ok_iff_resolves.1 hr)

/-- A controller that has not been configured knows nothing but whether it was
told to let go. -/
theorem Sound.eq_of_unconfigured (hc : c.Sound) (h : c.configured = false) :
    c = { requested := c.requested } := by
  have hv := hc.not_valid h
  have hi := hc.not_initialized h
  have hnone : ∀ {α : Type} {o : Option α}, o.isSome = false →
      o = none := by simp
  obtain ⟨model, spec, topic, configured, validConfig, initialized, parentLink,
    childLink, joint,
    requested⟩ := c
  cases h
  cases hv
  cases hi
  cases hnone hc.model
  cases hnone hc.spec
  cases hnone hc.parentLink
  cases hnone hc.childLink
  cases hc.untitled rfl
  cases hc.joint_eq_none rfl
  rfl

end Outcome

/-! ## What happens afterwards -/

/-- What holds of a controller for good after its first configuration: nothing
that was decided changes, a later configuration is ignored, and if the first one
failed nothing is done in a turn. -/
structure Decided (κ : Type) (c d : Controller) : Prop where
  settled : d.settled = c.settled
  ignores : ∀ (n : Encounter κ) (e : Entity) (element : Element),
    n.demand = .configure e element →
    d.meet n = { n.situation d with log := [ignored] }
  failed : c.validConfig = false → d = { c with requested := d.requested }
  inert : c.validConfig = false → ∀ (n : Encounter κ) (callback : κ),
    n.demand = .preUpdate callback → d.meet n = n.situation d

section Afterwards

variable {κ : Type} {c d : Controller}

theorem settled_meet (h : c.configured = true) (n : Encounter κ) :
    (c.meet n).controller.settled = c.settled := by
  unfold meet
  split
  · exact congrArg Controller.settled (configure_of_configured h _ _ _)
  · exact (preUpdate_turn _ _).settled
  · rfl

/-- Nothing that a configured controller meets changes what its configuration
decided. -/
theorem settled_live (h : c.configured = true) (life : List (Encounter κ)) :
    (c.live life).settled = c.settled := by
  induction life generalizing c with
  | nil => rfl
  | cons n life ih =>
      have hmeet := settled_meet h n
      have hconfigured : (c.meet n).controller.configured = true :=
        (congrArg Controller.configured hmeet).trans h
      exact (ih hconfigured).trans hmeet

theorem Sound.unattached_of_invalid (hc : c.Sound)
    (hv : c.validConfig = false) :
    c.initialized = false := by
  cases hi : c.initialized with
  | false => rfl
  | true => simp [hc.valid hi] at hv

/-- A controller that was never found valid has no more than its marker and its
flag. -/
theorem eq_of_settled_of_invalid (hc : c.Sound) (hd : d.Sound)
    (h : d.settled = c.settled) (hv : c.validConfig = false) :
    d = { c with requested := d.requested } := by
  have hvd : d.validConfig = false :=
    (congrArg Controller.validConfig h).trans hv
  have hundone : ∀ {f : Controller}, f.Sound → f.validConfig = false →
      f = { f.settled with requested := f.requested } := by
    intro f hf hfv
    have hi := hf.unattached_of_invalid hfv
    have hchild : f.childLink = none := by simpa [hi] using hf.childLink
    have hjoint := hf.joint_eq_none hi
    obtain ⟨model, spec, topic, configured, validConfig, initialized,
      parentLink, childLink, joint,
      requested⟩ := f
    cases hi
    cases hchild
    cases hjoint
    rfl
  calc d = { d.settled with requested := d.requested } := hundone hd hvd
    _ = { c.settled with requested := d.requested } := by rw [h]
    _ = { c with requested := d.requested } := by
        conv_rhs => rw [hundone hc hv]

theorem Decided.of_live (hc : c.Sound) (h : c.configured = true)
    (life : List (Encounter κ)) :
    Decided κ c (c.live life) := by
  have hsettled := settled_live h life
  have hsound := hc.live life
  have hinvalid : c.validConfig = false →
      (c.live life).validConfig = false := fun hv =>
    (congrArg Controller.validConfig hsettled).trans hv
  refine { settled := hsettled, ignores := ?_, failed := ?_, inert := ?_ }
  · intro n e element hdemand
    have hconfigured : (c.live life).configured = true :=
      (congrArg Controller.configured hsettled).trans h
    simp only [meet, hdemand, configure, hconfigured, if_true]
    rfl
  · exact eq_of_settled_of_invalid hc hsound hsettled
  · intro hv n callback hdemand
    simp only [meet, hdemand]
    exact preUpdate_of_invalid callback (hinvalid hv)
      (hsound.unattached_of_invalid (hinvalid hv))

end Afterwards

/-- Whatever happened to a controller before its first configuration, it is new
but for its flag. The first configuration makes it valid if and only if the
entity is a live model, the required parameters are present, the switch can be
read, the model has a live link of the trimmed parent name, and the override or
the default topic can be repaired. It then knows what the checks found: the link
of lowest slot and the first of the topics that is valid. Otherwise it logs one
error, for the first check that fails, and is marked as configured and changed
in nothing else. Whatever happens afterwards, with any stores and endpoints,
none of this changes: later configurations log a warning and do nothing, and if
the first one failed no turn does anything. -/
theorem configuration_of_unconfigured {κ : Type}
    (earlier later : List (Encounter κ)) (e : Entity) (element : Element)
    (s : Store) (p : Endpoint κ) (h : (live {} earlier).configured = false) :
    let c := live {} earlier
    let n : Encounter κ := ⟨.configure e element, s, p⟩
    let d := (c.meet n).controller
    c = { requested := c.requested } ∧
      (d.validConfig = true ↔ Configurable e element s) ∧
      Outcome e element (n.situation c) (c.meet n) ∧
      Decided κ d (d.live later) := by
  intro c n d
  have hsound : c.Sound := sound_live earlier
  have houtcome : Outcome e element (n.situation c) (c.meet n) :=
    outcome_of_meet h rfl
  exact ⟨hsound.eq_of_unconfigured h,
    houtcome.validConfig_iff (hsound.not_valid h), houtcome,
    Decided.of_live (hsound.meet n) houtcome.configured later⟩

/-- A controller is told to let go and given a turn before it is configured, for
a model without a link of the parent name, with a switch that reads as a truth
value and no valid override. The link is spawned afterwards, but that is of no
use: the second configuration is ignored. -/
theorem configuration_of_missing_link :
    let s := Store.addModel (Store.create {}).2 ⟨1, 0⟩
    let element : Element := ({ name := "weld" } : Element)
      |>.withParam "parent_link" (.text " hook ")
      |>.withParam "child_model" (.text "cart")
      |>.withParam "child_link" (.text "eye")
      |>.withParam "suppress_child_warning" (.text " true ")
      |>.withParam "topic" (.text "@")
    let p : Endpoint Unit := .refusing
    let earlier : List (Encounter Unit) :=
      [⟨.request, s, p⟩, ⟨.preUpdate (), s, p⟩]
    let c := live {} earlier
    let n : Encounter Unit := ⟨.configure ⟨1, 0⟩ element, s, p⟩
    let d := (c.meet n).controller
    let t := (s.create.2.addLink ⟨2, 0⟩).setName ⟨2, 0⟩ "hook"
      |>.setParent ⟨2, 0⟩ ⟨1, 0⟩
    c.configured = false ∧ c.requested = true ∧
      ¬ Configurable ⟨1, 0⟩ element s ∧
      Configurable ⟨1, 0⟩ element t ∧
      Outcome ⟨1, 0⟩ element (n.situation c) (c.meet n) ∧
      (c.meet n).log = [failure (.parentLinkNotFound "hook" "")] ∧
      Decided Unit d (d.live [⟨.configure ⟨1, 0⟩ element, t, p⟩,
        ⟨.preUpdate (), t, p⟩]) := by
  intro s element p earlier c n d t
  have hfresh : (live {} earlier).configured = false := by decide +kernel
  have hinvalid : ¬ d.validConfig = true := by decide +kernel
  have hvalid :
      (c.meet ⟨.configure ⟨1, 0⟩ element, t, p⟩).controller.validConfig =
        true := by
    decide +kernel
  obtain ⟨-, hiff, houtcome, hdecided⟩ := configuration_of_unconfigured earlier
    [⟨.configure ⟨1, 0⟩ element, t, p⟩,
      ⟨.preUpdate (), t, p⟩] ⟨1, 0⟩ element s p hfresh
  obtain ⟨-, hiff', -⟩ :=
    configuration_of_unconfigured earlier [] ⟨1, 0⟩ element t p hfresh
  exact ⟨hfresh, by decide +kernel, hiff.not.1 hinvalid,
    hiff'.1 hvalid, houtcome, by decide +kernel, hdecided⟩

end Controller

end Linkage
