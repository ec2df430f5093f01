import Mathlib.Data.List.Forall2
import MutantGate.Mutation.Group
/-!
# The laws of requests

A request hands one selection from name to name and, inside a group, from member to member, and
a group may be made of groups.  For all that it is a plain ordered union: what a name adds to a
selection is what it stands for alone, less what has been taken before.  From this one law, which
follows the recursion, come the others: a request resolves to the first mentions in what its names
resolve to one by one, requests can be joined, and a resolved request resolves to itself.

## What is proved

For all lists of names: when a request fails and at which name, what it resolves to in terms of what
its names resolve to, how requests are joined, and that ids resolve to their operators.  The bound
under which groups are expanded is never met: no group is in itself, and each group in a group can
be expanded from every selection.

## What is left outside

Which operators a group has is a table of `Mutation.Group`, and no theorem says that it is the right
one.
-/

namespace MutantGate

/-! ## Names -/

/-- What is found under its name, if names differ. -/
theorem find?_name_eq_some_iff {α : Type} {all : List α} {name : α → String}
    (hall : ∀ a, all.find? (fun b => name b == name a) = some a) {s : String} {a : α} :
    all.find? (fun b => name b == s) = some a ↔ name a = s := by
  constructor
  · intro h
    simpa using List.find?_some h
  · rintro rfl
    exact hall a

theorem Operator.ofId?_id (o : Operator) : Operator.ofId? o.id = some o := by
  cases o <;> simp [Operator.ofId?, Operator.all, Operator.id]

theorem Operator.ofId?_eq_some_iff {s : String} {o : Operator} :
    Operator.ofId? s = some o ↔ o.id = s :=
  find?_name_eq_some_iff Operator.ofId?_id

/-- No two operators have the same id. -/
theorem Operator.id_injective : Function.Injective Operator.id := by
  intro o o' h
  exact Option.some.inj (o.ofId?_id.symm.trans (h ▸ o'.ofId?_id))

theorem Group.ofName?_name (g : Group) : Group.ofName? g.name = some g := by
  cases g <;> simp [Group.ofName?, Group.all, Group.name]

theorem Group.ofName?_eq_some_iff {s : String} {g : Group} :
    Group.ofName? s = some g ↔ g.name = s :=
  find?_name_eq_some_iff Group.ofName?_name

/-- No operator has the name of a group. -/
theorem Group.ofName?_id (o : Operator) : Group.ofName? o.id = none := by
  cases o <;> simp [Group.ofName?, Group.all, Group.name, Operator.id]

/-- A name that may be requested: that of a group, or the id of an operator. -/
def IsKnown (name : String) : Prop := (∃ g : Group, g.name = name) ∨ ∃ o : Operator, o.id = name

theorem isKnown_group (g : Group) : IsKnown g.name := .inl ⟨g, rfl⟩

/-- A group and a group in it. -/
def Group.Contains (outer inner : String) : Prop :=
  ∃ g, Group.ofName? outer = some g ∧ .group inner ∈ g.members

/-- The groups in a group are groups. -/
theorem Group.Contains.isKnown {outer inner : String} (h : Group.Contains outer inner) :
    IsKnown inner := by
  obtain ⟨g, -, hinner⟩ := h
  have hparts : ∀ inner ∈ g.members.filterMap Member.group?, (Group.ofName? inner).isSome := by
    cases g <;>
      simp [Group.members, Member.group?, Group.ofName?, Group.all, Group.name]
  obtain ⟨g', hg'⟩ := Option.isSome_iff_exists.mp
    (hparts inner (List.mem_filterMap.mpr ⟨_, hinner, rfl⟩))
  exact .inl ⟨g', Group.ofName?_eq_some_iff.mp hg'⟩

/-- No group is in itself, at any depth. -/
theorem Group.contains_wellFounded : WellFounded fun inner outer => Group.Contains outer inner := by
  refine Subrelation.wf (r := InvImage (· < ·) Group.nesting) ?_ (InvImage.wf _ Nat.lt_wfRel.wf)
  rintro inner outer ⟨g, hg, hinner⟩
  exact Group.nesting_lt hg hinner

/-! ## Selections as ordered unions -/

theorem eraseDups_of_nodup {α : Type} [BEq α] [LawfulBEq α] {xs : List α} (h : xs.Nodup) :
    xs.eraseDups = xs := by
  induction xs with
  | nil => rfl
  | cons x xs ih =>
      obtain ⟨hx, hxs⟩ := List.nodup_cons.mp h
      rw [List.eraseDups_cons, List.filter_eq_self.mpr, ih hxs]
      intro y hy
      have hne : y ≠ x := fun heq => hx (heq ▸ hy)
      simpa using hne

namespace Selection

theorem take_of_mem {s : Selection} {o : Operator} (h : o ∈ s.operators) : s.take o = s :=
  dif_pos ((s.seen_iff o).mpr h)

theorem take_operators_of_not_mem {s : Selection} {o : Operator} (h : o ∉ s.operators) :
    (s.take o).operators = s.operators ++ [o] := by
  rw [take, dif_neg (mt (s.seen_iff o).mp h)]

/-- Takes operators, one after the other. -/
def takeAll (s : Selection) (os : List Operator) : Selection := os.foldl take s

/-- The first mentions are taken, behind what was there before. -/
theorem takeAll_operators (s : Selection) (os : List Operator) :
    (s.takeAll os).operators = (s.operators ++ os).eraseDups := by
  induction os generalizing s with
  | nil =>
      rw [List.append_nil]
      exact (eraseDups_of_nodup s.nodup).symm
  | cons o os ih =>
      show ((s.take o).takeAll os).operators = _
      rw [ih]
      by_cases ho : o ∈ s.operators
      · rw [take_of_mem ho, List.eraseDups_append, List.eraseDups_append]
        congr 2
        simp [List.removeAll, ho]
      · rw [take_operators_of_not_mem ho, List.append_assoc, List.singleton_append]

/-- It makes no difference whether repetitions are dropped early. -/
theorem eraseDups_append_of_eraseDups (os ps : List Operator) :
    (os.eraseDups ++ ps).eraseDups = (os ++ ps).eraseDups :=
  calc (os.eraseDups ++ ps).eraseDups
      = ((empty.takeAll os).operators ++ ps).eraseDups := by rw [takeAll_operators]; rfl
    _ = ((empty.takeAll os).takeAll ps).operators := (takeAll_operators _ ps).symm
    _ = (empty.takeAll (os ++ ps)).operators := by rw [takeAll, takeAll, takeAll, List.foldl_append]
    _ = (os ++ ps).eraseDups := takeAll_operators _ _

/-- What a selection has, followed by what another one has besides. -/
def merge (s t : Selection) : Selection := s.takeAll t.operators

theorem merge_operators (s t : Selection) :
    (s.merge t).operators = (s.operators ++ t.operators).eraseDups :=
  s.takeAll_operators t.operators

/-- An operator may be taken before or after two selections are merged. -/
theorem merge_take (s t : Selection) (o : Operator) : s.merge (t.take o) = (s.merge t).take o := by
  by_cases ho : o ∈ t.operators
  · rw [take_of_mem ho, take_of_mem]
    rw [merge_operators, List.mem_eraseDups]
    exact List.mem_append_right _ ho
  · rw [merge, take_operators_of_not_mem ho, takeAll, List.foldl_append]
    rfl

/-- If every step can be made from every selection, so can a run. -/
theorem foldlM_isOk {α : Type} {f : Selection → α → Except Failure Selection} {xs : List α}
    (hf : ∀ x ∈ xs, ∀ t, ∃ t', f t x = .ok t') (s : Selection) : ∃ s', xs.foldlM f s = .ok s' := by
  induction xs generalizing s with
  | nil => exact ⟨s, rfl⟩
  | cons x xs ih =>
      obtain ⟨t, ht⟩ := hf x List.mem_cons_self s
      rw [List.foldlM_cons, ht]
      exact ih (fun y hy => hf y (List.mem_cons_of_mem _ hy)) t

/-- If every step adds the same to a selection alone and behind another one, so does a run. -/
theorem foldlM_merge {α : Type} {f : Selection → α → Except Failure Selection} {s : Selection}
    {xs : List α} (hf : ∀ x ∈ xs, ∀ t, f (s.merge t) x = (f t x).map s.merge) (t : Selection) :
    xs.foldlM f (s.merge t) = (xs.foldlM f t).map s.merge := by
  induction xs generalizing t with
  | nil => rfl
  | cons x xs ih =>
      rw [List.foldlM_cons, List.foldlM_cons, hf x List.mem_cons_self]
      cases f t x with
      | error e => rfl
      | ok u => exact ih (fun y hy => hf y (List.mem_cons_of_mem _ hy)) u

end Selection

/-! ## Expansion -/

/-- Takes a member of a group. -/
def Selection.takeMember (s : Selection) : Member → Except Failure Selection
  | .operator o => .ok (s.take o)
  | .group inner => expand inner s

theorem expand_group {name : String} {g : Group} (hg : Group.ofName? name = some g)
    (s : Selection) : expand name s = g.members.foldlM Selection.takeMember s := by
  rw [expand]
  split
  · rename_i g' hg'
    obtain rfl : g' = g := Option.some.inj (hg'.symm.trans hg)
    rw [List.foldlM_subtype (g := Selection.takeMember), List.unattach_attach]
    intro s m hm
    cases m <;> rfl
  · rename_i hnone
    cases hnone.symm.trans hg

theorem expand_id (o : Operator) (s : Selection) : expand o.id s = .ok (s.take o) := by
  rw [expand]
  split
  · rename_i g hg
    cases (Group.ofName?_id o).symm.trans hg
  · rw [Operator.ofId?_id]

theorem expand_unknown {name : String} (h : ¬ IsKnown name) (s : Selection) :
    expand name s = .error (.unknownGroup name) := by
  rw [expand]
  split
  · rename_i g hg
    exact absurd (.inl ⟨g, Group.ofName?_eq_some_iff.mp hg⟩) h
  · cases ho : Operator.ofId? name with
    | none => rfl
    | some o => exact absurd (.inr ⟨o, Operator.ofId?_eq_some_iff.mp ho⟩) h

/-- A name is expanded whatever has been taken before, and so are the groups in it. -/
theorem expand_isOk {name : String} (h : IsKnown name) (s : Selection) :
    ∃ s', expand name s = .ok s' := by
  induction name using Group.contains_wellFounded.induction generalizing s with
  | _ name ih =>
      obtain ⟨g, rfl⟩ | ⟨o, rfl⟩ := h
      · rw [expand_group g.ofName?_name]
        refine Selection.foldlM_isOk (fun m hm t => ?_) s
        cases m with
        | operator o => exact ⟨_, rfl⟩
        | group inner =>
            have hcontains : Group.Contains g.name inner := ⟨g, g.ofName?_name, hm⟩
            exact ih inner hcontains hcontains.isKnown t
      · exact ⟨_, expand_id o s⟩

theorem expand_isOk_iff {name : String} {s : Selection} :
    (∃ s', expand name s = .ok s') ↔ IsKnown name := by
  refine ⟨fun ⟨s', hs'⟩ => ?_, fun h => expand_isOk h s⟩
  by_contra hunknown
  cases (expand_unknown hunknown s).symm.trans hs'

/-- A name adds the same to a selection, less what is there already, as it does alone. -/
theorem expand_merge (name : String) (s t : Selection) :
    expand name (s.merge t) = (expand name t).map s.merge := by
  induction name using Group.contains_wellFounded.induction generalizing t with
  | _ name ih =>
      by_cases h : IsKnown name
      · obtain ⟨g, rfl⟩ | ⟨o, rfl⟩ := h
        · rw [expand_group g.ofName?_name, expand_group g.ofName?_name]
          refine Selection.foldlM_merge (fun m hm t => ?_) t
          cases m with
          | operator o => exact congrArg Except.ok (s.merge_take t o).symm
          | group inner => exact ih inner ⟨g, g.ofName?_name, hm⟩ t
        · rw [expand_id, expand_id, ← s.merge_take]
          rfl
      · rw [expand_unknown h, expand_unknown h]
        rfl

/-- A name adds to a selection what it stands for alone. -/
theorem expand_eq (name : String) (s : Selection) :
    expand name s = (expand name .empty).map s.merge :=
  expand_merge name s .empty

/-- No name stands for nothing. -/
theorem expand_operators_ne_nil {name : String} {s : Selection}
    (h : expand name .empty = .ok s) : s.operators ≠ [] := by
  have hgroup : ∀ g : Group,
      (expand g.name .empty).toOption.any fun s => !s.operators.isEmpty := by
    intro g
    cases g <;> decide +kernel
  obtain ⟨g, rfl⟩ | ⟨o, rfl⟩ := expand_isOk_iff.mp ⟨s, h⟩
  · have hg := hgroup g
    rw [h] at hg
    simpa [Except.toOption] using hg
  · cases (expand_id o .empty).symm.trans h
    exact List.cons_ne_nil o []

/-! ## Requests of several names -/

variable {names a b : List String} {name : String} {os ra rb : List Operator}

theorem expandAll_cons (name : String) (names : List String) (s : Selection) :
    expandAll (name :: names) s = (expand name s).bind (expandAll names) :=
  List.foldlM_cons

theorem expandAll_append (a b : List String) (s : Selection) :
    expandAll (a ++ b) s = (expandAll a s).bind (expandAll b) :=
  List.foldlM_append

/-- Names add to a selection what they stand for alone. -/
theorem expandAll_eq (names : List String) (s : Selection) :
    expandAll names s = (expandAll names .empty).map s.merge :=
  Selection.foldlM_merge (fun name _ t => expand_merge name s t) .empty

theorem expandAll_isOk (h : ∀ n ∈ names, IsKnown n) (s : Selection) :
    ∃ s', expandAll names s = .ok s' :=
  Selection.foldlM_isOk (fun n hn t => expand_isOk (h n hn) t) s

/-- Ids add their operators. -/
theorem expandAll_ids (os : List Operator) (s : Selection) :
    expandAll (os.map Operator.id) s = .ok (s.takeAll os) := by
  induction os generalizing s with
  | nil => rfl
  | cons o os ih =>
      rw [List.map_cons, expandAll_cons, expand_id]
      exact ih (s.take o)

theorem resolve_eq_ok_iff :
    resolve names = .ok os ↔
      names ≠ [] ∧ ∃ s, expandAll names .empty = .ok s ∧ s.operators = os := by
  cases names with
  | nil => simp [resolve]
  | cons n names =>
      rw [resolve, if_neg (by simp)]
      cases hexpand : expandAll (n :: names) .empty with
      | error e => simp [Except.map]
      | ok s => simp [Except.map]

theorem resolve_singleton_eq_ok_iff :
    resolve [name] = .ok os ↔ ∃ s, expand name .empty = .ok s ∧ s.operators = os := by
  have hone : expandAll [name] .empty = expand name .empty := by
    rw [expandAll_cons]
    cases expand name .empty <;> rfl
  rw [resolve_eq_ok_iff, hone]
  exact and_iff_right (List.cons_ne_nil name [])

/-- A request fails at the first name that is not known. -/
theorem resolve_unknown {before after : List String} (hbefore : ∀ n ∈ before, IsKnown n)
    (hname : ¬ IsKnown name) :
    resolve (before ++ name :: after) = .error (.unknownGroup name) := by
  obtain ⟨s, hs⟩ := expandAll_isOk hbefore .empty
  rw [resolve, if_neg (by simp), expandAll_append, hs]
  show ((expandAll (name :: after) s).map _) = _
  rw [expandAll_cons, expand_unknown hname]
  rfl

/-- Names are all known, or one of them is the first that is not. -/
theorem known_or_first_unknown (names : List String) :
    (∀ n ∈ names, IsKnown n) ∨ ∃ before name after, names = before ++ name :: after ∧
      (∀ n ∈ before, IsKnown n) ∧ ¬ IsKnown name := by
  induction names with
  | nil => exact .inl fun n hn => absurd hn List.not_mem_nil
  | cons n names ih =>
      by_cases hn : IsKnown n
      · obtain hnames | ⟨before, name, after, rfl, hbefore, hname⟩ := ih
        · exact .inl (List.forall_mem_cons.mpr ⟨hn, hnames⟩)
        · exact .inr ⟨n :: before, name, after, rfl, List.forall_mem_cons.mpr ⟨hn, hbefore⟩, hname⟩
      · exact .inr ⟨[], n, names, rfl, fun m hm => absurd hm List.not_mem_nil, hn⟩

/-- What names add to a selection, told by what each of them resolves to alone. -/
theorem exists_resolved_names {s s' : Selection} (h : expandAll names s = .ok s') :
    ∃ parts, List.Forall₂ (fun n part => resolve [n] = .ok part) names parts ∧
      s'.operators = (s.operators ++ parts.flatten).eraseDups := by
  induction names generalizing s with
  | nil =>
      obtain rfl : s = s' := Except.ok.inj h
      refine ⟨[], .nil, ?_⟩
      rw [List.flatten_nil, List.append_nil, eraseDups_of_nodup s.nodup]
  | cons n names ih =>
      rw [expandAll_cons, expand_eq] at h
      cases hn : expand n .empty with
      | error e =>
          rw [hn] at h
          cases h
      | ok t =>
          rw [hn] at h
          obtain ⟨parts, hparts, hoperators⟩ := ih h
          have hpart := resolve_singleton_eq_ok_iff.mpr ⟨t, hn, rfl⟩
          refine ⟨t.operators :: parts, .cons hpart hparts, ?_⟩
          rw [hoperators, Selection.merge_operators, Selection.eraseDups_append_of_eraseDups,
            List.flatten_cons, List.append_assoc]

theorem resolve_nodup (h : resolve names = .ok os) : os.Nodup := by
  obtain ⟨-, s, -, rfl⟩ := resolve_eq_ok_iff.mp h
  exact s.nodup

theorem resolve_ne_nil (h : resolve names = .ok os) : os ≠ [] := by
  obtain ⟨hnames, s, hs, rfl⟩ := resolve_eq_ok_iff.mp h
  cases names with
  | nil => exact absurd rfl hnames
  | cons n names =>
      obtain ⟨parts, hparts, hoperators⟩ := exists_resolved_names hs
      cases hparts with
      | @cons _ part _ parts hn _ =>
          obtain ⟨t, ht, rfl⟩ := resolve_singleton_eq_ok_iff.mp hn
          obtain ⟨o, ho⟩ := List.exists_mem_of_ne_nil _ (expand_operators_ne_nil ht)
          refine List.ne_nil_of_mem (a := o) ?_
          rw [hoperators, List.mem_eraseDups, List.flatten_cons]
          exact List.mem_append_right _ (List.mem_append_left _ ho)

/-- Requests are joined by joining what they resolve to. -/
theorem resolve_append (ha : resolve a = .ok ra) (hb : resolve b = .ok rb) :
    resolve (a ++ b) = .ok (ra ++ rb).eraseDups := by
  obtain ⟨hne, s, hs, rfl⟩ := resolve_eq_ok_iff.mp ha
  obtain ⟨-, t, ht, rfl⟩ := resolve_eq_ok_iff.mp hb
  refine resolve_eq_ok_iff.mpr ⟨List.append_ne_nil_of_left_ne_nil hne b, s.merge t, ?_, ?_⟩
  · rw [expandAll_append, hs]
    show expandAll b s = _
    rw [expandAll_eq, ht]
    rfl
  · exact s.merge_operators t

/-- A request for operators that were asked for before gives the same operators. -/
theorem resolve_ids (h : resolve names = .ok os) : resolve (os.map Operator.id) = .ok os := by
  have hne : os.map Operator.id ≠ [] := mt List.map_eq_nil_iff.mp (resolve_ne_nil h)
  refine resolve_eq_ok_iff.mpr ⟨hne, _, expandAll_ids os .empty, ?_⟩
  rw [Selection.takeAll_operators]
  exact eraseDups_of_nodup (resolve_nodup h)

theorem resolve_isOk_iff :
    (∃ os, resolve names = .ok os) ↔ names ≠ [] ∧ ∀ n ∈ names, IsKnown n := by
  constructor
  · rintro ⟨os, hos⟩
    refine ⟨(resolve_eq_ok_iff.mp hos).1, ?_⟩
    obtain hknown | ⟨before, name, after, rfl, hbefore, hname⟩ := known_or_first_unknown names
    · exact hknown
    · cases (resolve_unknown hbefore hname).symm.trans hos
  · rintro ⟨hnames, hknown⟩
    obtain ⟨s, hs⟩ := expandAll_isOk hknown .empty
    exact ⟨s.operators, resolve_eq_ok_iff.mpr ⟨hnames, s, hs, rfl⟩⟩

/-- How a request can fail: it is empty, or it has a name that is not known. -/
theorem resolve_eq_error_iff {e : Failure} :
    resolve names = .error e ↔ (names = [] ∧ e = .usage "no mutator group requested") ∨
      ∃ before name after, names = before ++ name :: after ∧ (∀ n ∈ before, IsKnown n) ∧
        ¬ IsKnown name ∧ e = .unknownGroup name := by
  constructor
  · intro h
    by_cases hnil : names = []
    · subst hnil
      exact .inl ⟨rfl, (Except.error.inj h).symm⟩
    · obtain hknown | ⟨before, name, after, rfl, hbefore, hname⟩ := known_or_first_unknown names
      · obtain ⟨os, hos⟩ := resolve_isOk_iff.mpr ⟨hnil, hknown⟩
        cases hos.symm.trans h
      · have he := (resolve_unknown hbefore hname).symm.trans h
        exact .inr ⟨before, name, after, rfl, hbefore, hname, (Except.error.inj he).symm⟩
  · rintro (⟨rfl, rfl⟩ | ⟨before, name, after, rfl, hbefore, hname, rfl⟩)
    · rfl
    · exact resolve_unknown hbefore hname

/-- A request is an ordered union.  It fails for want of names, or at the first name that is
neither a group nor an operator, and else gives the first mentions in what its names give one by
one; so requests can be joined, and a resolved one resolves to itself.  No group is in itself, and
a group in a group can be expanded at any time. -/
theorem resolve_ordered_union :
    (∀ names, (∃ text, resolve names = .error (.usage text)) ↔ names = []) ∧
    (∀ names name, resolve names = .error (.unknownGroup name) ↔
      ∃ before after, names = before ++ name :: after ∧ (∀ n ∈ before, IsKnown n) ∧
        ¬ IsKnown name) ∧
    (∀ names, (∃ os, resolve names = .ok os) ↔ names ≠ [] ∧ ∀ n ∈ names, IsKnown n) ∧
    (∀ names os, resolve names = .ok os → os.Nodup ∧
      ∃ parts, List.Forall₂ (fun n part => resolve [n] = .ok part) names parts ∧
        os = parts.flatten.eraseDups) ∧
    (∀ a b ra rb, resolve a = .ok ra → resolve b = .ok rb →
      resolve (a ++ b) = .ok (ra ++ rb).eraseDups) ∧
    (∀ names os, resolve names = .ok os → resolve (os.map Operator.id) = .ok os) ∧
    (WellFounded fun inner outer => Group.Contains outer inner) ∧
    ∀ outer inner, Group.Contains outer inner → ∀ s, ∃ s', expand inner s = .ok s' := by
  refine ⟨fun names => ?_, fun names name => ?_, fun names => resolve_isOk_iff,
    fun names os h => ⟨resolve_nodup h, ?_⟩, fun a b ra rb ha hb => resolve_append ha hb,
    fun names os h => resolve_ids h, Group.contains_wellFounded,
    fun outer inner h s => expand_isOk h.isKnown s⟩
  · constructor
    · rintro ⟨text, htext⟩
      obtain ⟨hnil, -⟩ | ⟨_, _, _, _, _, _, he⟩ := resolve_eq_error_iff.mp htext
      · exact hnil
      · cases he
    · rintro rfl
      exact ⟨_, rfl⟩
  · rw [resolve_eq_error_iff]
    constructor
    · rintro (⟨-, he⟩ | ⟨before, _, after, hnames, hbefore, hname, he⟩)
      · cases he
      · cases he
        exact ⟨before, after, hnames, hbefore, hname⟩
    · rintro ⟨before, after, hnames, hbefore, hname⟩
      exact .inr ⟨before, name, after, hnames, hbefore, hname, rfl⟩
  · obtain ⟨-, s, hs, rfl⟩ := resolve_eq_ok_iff.mp h
    exact exists_resolved_names hs

/-- Two requests that share a group and an operator in it, and one with two unknown names. -/
theorem resolve_ordered_union_overlapping :
    resolve ["cxx_le_to_gt", "cxx_calls"] = .ok [.leToGt, .removeVoidCall, .replaceCall] ∧
    resolve ["experimental", "cxx_replace_call"] = .ok [.noMutation, .replaceCall] ∧
    resolve ["cxx_le_to_gt", "cxx_calls", "experimental", "cxx_replace_call"] =
      .ok [.leToGt, .removeVoidCall, .replaceCall, .noMutation] ∧
    resolve ["cxx_calls", "cxx_bogus", "cxx_nonsense"] = .error (.unknownGroup "cxx_bogus") := by
  obtain ⟨-, hunknown, -, -, happend, -⟩ := resolve_ordered_union
  have ha : resolve ["cxx_le_to_gt", "cxx_calls"] =
      .ok [.leToGt, .removeVoidCall, .replaceCall] := by decide +kernel
  have hb : resolve ["experimental", "cxx_replace_call"] = .ok [.noMutation, .replaceCall] := by
    decide +kernel
  refine ⟨ha, hb, happend _ _ _ _ ha hb, (hunknown _ _).mpr ?_⟩
  refine ⟨["cxx_calls"], ["cxx_nonsense"], rfl, fun n hn => ?_, ?_⟩
  · rw [List.mem_singleton.mp hn]
    exact isKnown_group .calls
  · rintro (⟨g, hg⟩ | ⟨o, ho⟩)
    · cases g <;> exact absurd hg (by decide)
    · cases o <;> exact absurd ho (by decide)

end MutantGate
