import ComponentSchema.Proofs.Calls
import ComponentSchema.Proofs.Linking
import Mathlib.Data.List.Chain

/-!
# The recursion of a compilation ends

However the components of a definition refer to each other, registrations nest only
finitely deep. A registration of a top-level name reserves the name before it starts any
other, so fewer names are left for those inside it; between two registrations of
top-level names only members are entered, each inside the definition of the one before.
The budget of `enter` is therefore never used up: no outcome depends on it.
-/

namespace ComponentSchema

open Registration Definition Relation Call

/-! ## Nesting of components -/

/-- How deep components are nested in a definition, the component itself included. -/
def Definition.nesting (d : Tree) : Nat :=
  ((members d).attach.map fun m => nesting m.1.2).foldr max 0 + 1
termination_by sizeOf d
decreasing_by exact sizeOf_member_lt m.2

/-- The greatest nesting among the components. -/
def Definition.nestingOf (components : Components) : Nat :=
  (components.map fun component => nesting component.2).foldr max 0

@[simp] theorem Definition.nestingOf_nil : nestingOf [] = 0 := rfl

@[simp] theorem Definition.nestingOf_cons (component : String × Tree) (rest : Components) :
    nestingOf (component :: rest) = max (nesting component.2) (nestingOf rest) := rfl

theorem Definition.nesting_eq (d : Tree) : nesting d = nestingOf (members d) + 1 := by
  rw [nesting, nestingOf, List.attach_map_val (f := fun m : String × Tree => nesting m.2)]

theorem Definition.nesting_le_of_mem {components : Components} {component : String × Tree}
    (h : component ∈ components) : nesting component.2 ≤ nestingOf components := by
  induction components with
  | nil => cases h
  | cons first rest ih =>
    rw [nestingOf_cons]
    rcases List.mem_cons.mp h with rfl | h
    · exact Nat.le_max_left _ _
    · exact Nat.le_trans (ih h) (Nat.le_max_right _ _)

theorem Definition.nesting_member_lt {d : Tree} {m : String × Tree} (h : m ∈ members d) :
    nesting m.2 < nesting d := by
  rw [nesting_eq d]
  exact Nat.lt_succ_of_le (nesting_le_of_mem h)

/-! ## One call -/

namespace Call

/-- The registration has got to `m`, where it starts another one: what was bound is bound,
and a top-level name is by now reserved. -/
structure Spans (c : Call) (m : Progress) : Prop where
  grounded : m.registry.Grounded
  kept : ∀ {name}, c.progress.registry.contains name = true → m.registry.contains name = true
  own : c.path = [] →
    c.progress.registry.contains c.name = false ∧ m.registry.contains c.name = true

theorem Spans.trans {c inner : Call} {m : Progress} (h : c.Spans inner.progress)
    (hi : inner.Spans m) : c.Spans m where
  grounded := hi.grounded
  kept hn := hi.kept (h.kept hn)
  own hp := ⟨(h.own hp).1, hi.kept (h.own hp).2⟩

variable {components : Components} {enter : String → Session Unit} {c inner : Call}

theorem Spans.unbound_le {m : Progress} (h : c.Spans m) :
    unbound components m.registry ≤ unbound components c.progress.registry :=
  unbound_mono h.kept

theorem Spans.unbound_lt {m : Progress} (h : c.Spans m) (hp : c.path = [])
    (ht : Entries.contains components c.name = true) :
    unbound components m.registry < unbound components c.progress.registry := by
  obtain ⟨hfree, hbound⟩ := h.own hp
  refine Nat.lt_of_le_of_lt (unbound_mono fun {other} ho => ?_) (unbound_reserve_lt ht hfree)
  rw [contains_reserve, Bool.or_eq_true, decide_eq_true_iff] at ho
  rcases ho with rfl | ho
  · exact hbound
  · exact h.kept ho

/-- A body is read while the name is reserved. -/
theorem Opens.spans {m : Progress} (h : c.Opens components) (hm : m.registry.Grounded)
    (hx : c.reserved.registry.Extends m.registry) : c.Spans m where
  grounded := hm
  kept {name} hn := hx.contains (by
    rw [reserved, Progress.update, contains_reserve, hn, Bool.or_true])
  own hp := by
    have hfree := h.free
    have hbound : c.reserved.registry.contains (dottedName c.path c.name) = true := by
      simp [reserved, Progress.update, contains_reserve]
    rw [hp, dottedName_top] at hfree hbound
    exact ⟨hfree, hx.contains hbound⟩

theorem Opens.grounded (h : c.Opens components) (hg : c.progress.registry.Grounded) :
    c.reserved.registry.Grounded :=
  hg.reserve (Registry.not_contains_iff.mp h.free)

theorem Nests.spans (hc : ∀ target, Conservative (enter target))
    (hg : c.progress.registry.Grounded) (h : Nests components enter c inner) :
    c.Spans inner.progress := by
  cases h with
  | member ho _ _ hy hy' _ =>
    obtain ⟨hm, hx⟩ := (Conservative.itemEntries fun m _ path name =>
      .register hc path name m.2).yields (ho.grounded hg) hy
    obtain ⟨hq, hx'⟩ := (Conservative.addItems hc _ _ _).yields hm hy'
    exact ho.spans hq (hx.trans hx')

theorem Follows.spans (hc : ∀ target, Conservative (enter target))
    (hg : c.progress.registry.Grounded) {target : String} {m : Progress}
    (h : Follows components enter c target m) : c.Spans m := by
  cases h with
  | topReference ho _ _ => exact ho.spans (ho.grounded hg) (.refl _)
  | innerReference _ hp _ => exact ⟨hg, fun hn => hn, fun he => absurd he hp⟩
  | itemType ho _ _ hy _ _ =>
    obtain ⟨hm, hx⟩ := (Conservative.itemTypes hc _ _).yields (ho.grounded hg) hy
    exact ho.spans hm hx

theorem Follows.contains {target : String} {m : Progress}
    (h : Follows components enter c target m) : Entries.contains components target = true := by
  cases h with
  | topReference ho _ hf => exact ho.headed.target hf
  | innerReference hh _ hf => exact hh.target hf
  | itemType _ _ _ _ _ hk => exact hk

/-- What a member asks for, the whole component asks for. -/
theorem Follows.spans_of_nests (hc : ∀ target, Conservative (enter target))
    (hg : c.progress.registry.Grounded) {target : String} {m : Progress}
    (hn : ReflTransGen (Nests components enter) c inner)
    (h : Follows components enter inner target m) : c.Spans m := by
  induction hn using ReflTransGen.head_induction_on with
  | refl => exact h.spans hc hg
  | head hn _ ih =>
    have hs := hn.spans hc hg
    exact hs.trans (ih hs.grounded)

/-- The registration starts from a grounded registry, and a top-level name has its own
definition. -/
structure Proper (components : Components) (c : Call) : Prop where
  grounded : c.progress.registry.Grounded
  top : c.path = [] → Entries.get? components c.name = some c.definition

theorem Proper.contains (h : c.Proper components) (hp : c.path = []) :
    Entries.contains components c.name = true :=
  Entries.contains_of_get? (h.top hp)

theorem Calls.spans (hc : ∀ target, Conservative (enter target)) (hp : c.Proper components)
    (h : Calls components enter c inner) : c.Spans inner.progress := by
  cases h with
  | member hn => exact hn.spans hc hp.grounded
  | target hf _ _ => exact hf.spans hc hp.grounded

theorem Calls.proper (hc : ∀ target, Conservative (enter target)) (hp : c.Proper components)
    (h : Calls components enter c inner) : inner.Proper components := by
  refine ⟨(h.spans hc hp).grounded, fun hpath => ?_⟩
  cases h with
  | member hn => exact absurd hpath (by simp [hn.path_eq])
  | target _ _ hd => exact hd

/-- A top-level name is registered inside another registration only if it is not bound. -/
theorem Calls.free (h : Calls components enter c inner) (hpath : inner.path = []) :
    inner.progress.registry.contains inner.name = false := by
  cases h with
  | member hn => exact absurd hpath (by simp [hn.path_eq])
  | target _ hn _ => exact hn

/-! ## The rank of a registration -/

/-- The number of top-level names that are left to the registrations inside. -/
def room (components : Components) (c : Call) : Nat :=
  if c.path = [] then unbound components c.progress.registry - 1
  else unbound components c.progress.registry

/-- A bound for the depth of the registrations inside, this one included: the members of
the definition, and for each name that is left a whole definition. -/
def rank (components : Components) (c : Call) : Nat :=
  nesting c.definition + c.room components * nestingOf components

theorem Spans.unbound_le_room {m : Progress} (h : c.Spans m) (hp : c.Proper components) :
    unbound components m.registry ≤ c.room components := by
  rw [room]
  split
  next hpath => exact Nat.le_sub_one_of_lt (h.unbound_lt hpath (hp.contains hpath))
  next => exact h.unbound_le

/-- The rank of a top-level name is worth one definition for each name that is left,
itself included. -/
theorem Proper.rank_le (hp : c.Proper components) (hpath : c.path = []) {n : Nat}
    (hn : unbound components c.progress.registry ≤ n) (hpos : 0 < n) :
    c.rank components ≤ n * nestingOf components := by
  have hd : nesting c.definition ≤ nestingOf components :=
    nesting_le_of_mem (Entries.mem_of_get? (hp.top hpath))
  have hroom : c.room components ≤ n - 1 := by
    rw [room, if_pos hpath]
    omega
  calc c.rank components
      ≤ nestingOf components + (n - 1) * nestingOf components :=
        Nat.add_le_add hd (Nat.mul_le_mul_right _ hroom)
    _ = n * nestingOf components := by
        rw [Nat.sub_one_mul, Nat.add_sub_cancel' (Nat.le_mul_of_pos_left _ hpos)]

/-- A member is nested less deep and has no more room; a reference takes up one name of
the room, which is worth a whole definition. -/
theorem Calls.rank_lt (hc : ∀ target, Conservative (enter target)) (hp : c.Proper components)
    (h : Calls components enter c inner) : inner.rank components < c.rank components := by
  have hroom := (h.spans hc hp).unbound_le_room hp
  have hinner := h.proper hc hp
  cases h with
  | member hn =>
    have hlt := nesting_member_lt hn.mem_members
    have hle : inner.room components ≤ c.room components := by
      rw [room, if_neg (by simp [hn.path_eq])]
      exact hroom
    exact Nat.add_lt_add_of_lt_of_le hlt (Nat.mul_le_mul_right _ hle)
  | target hf hn _ =>
    have hpos : 0 < nesting c.definition := by
      rw [nesting_eq]
      exact Nat.succ_pos _
    calc _ ≤ _ := hinner.rank_le rfl (Nat.le_refl _) (unbound_pos hf.contains hn)
      _ ≤ c.room components * nestingOf components := Nat.mul_le_mul_right _ hroom
      _ < c.rank components := Nat.lt_add_of_pos_left hpos

end Call

/-! ## The budget is never used up -/

section

variable {components : Components}

theorem outcome_enterWithin_bound {beyond : String → Session Unit} {budget : Nat} {name : String}
    {p : Progress} (h : p.registry.contains name = true) :
    outcome (enterWithin components beyond (budget + 1) name) p = (.ok (), p) := by
  rw [enterWithin, outcome_isBound_bind, h]
  rfl

theorem outcome_enterWithin_free {beyond : String → Session Unit} {budget : Nat} {name : String}
    {d : Tree} {p : Progress} (h : p.registry.contains name = false)
    (hd : Entries.get? components name = some d) :
    outcome (enterWithin components beyond (budget + 1) name) p =
      outcome (discard (register components (enterWithin components beyond budget) [] name d))
        p := by
  rw [enterWithin, outcome_isBound_bind, h, hd]
  rfl

/-- A reference is followed to its end, whatever the budget, if only it exceeds the number
of the names that are left. -/
theorem outcome_enterWithin_stable (beyond : String → Session Unit) (budget budget' : Nat)
    {name : String} {p : Progress} (hg : p.registry.Grounded)
    (ht : Entries.contains components name = true)
    (hb : unbound components p.registry ≤ budget)
    (hb' : unbound components p.registry ≤ budget') :
    outcome (enterWithin components beyond (budget' + 1) name) p =
      outcome (follow components budget name) p := by
  induction budget generalizing budget' name p with
  | zero =>
    -- no top-level name is left, so this one is bound
    cases hn : p.registry.contains name with
    | true => exact outcome_enterWithin_bound hn
    | false =>
      have := unbound_pos ht hn
      omega
  | succ budget ih =>
    cases hn : p.registry.contains name with
    | true => rw [outcome_enterWithin_bound hn, follow, outcome_enterWithin_bound hn]
    | false =>
      obtain ⟨d, hd⟩ := Entries.contains_iff_get?.mp ht
      have hc : ∀ target, Conservative (follow components budget target) :=
        .enterWithin (fun _ => .pure ()) budget
      rw [follow, outcome_enterWithin_free hn hd, outcome_enterWithin_free hn hd]
      refine outcome_discard_congr (outcome_register_congr (c := ⟨[], name, d, p⟩) ?_)
      intro inner target m hin hf
      -- the registration of the name leaves one name fewer to those inside it
      have hs := hf.spans_of_nests hc hg hin
      have hlt : unbound components m.registry < unbound components p.registry :=
        hs.unbound_lt rfl ht
      cases budget' with
      | zero => omega
      | succ budget' => exact ih budget' hs.grounded hf.contains (by omega) (by omega)

/-- Following a reference once more changes nothing: `enter` is the recursion without a
budget. -/
theorem outcome_enter_unfold {name : String} {p : Progress} (hg : p.registry.Grounded)
    (ht : Entries.contains components name = true) :
    outcome (enterWithin components (enter components) 1 name) p =
      outcome (enter components name) p :=
  outcome_enterWithin_stable _ components.length components.length hg ht
    (unbound_le_length components p.registry) (unbound_le_length components p.registry)

end

/-! ## Registrations in progress -/

/-- The registration of a top-level component begins, after those of the components that
stand before it. -/
inductive Starts (components : Components) : Call → Prop
  | intro {before after : List (String × Tree)} {name : String} {d : Tree} {items : Items}
      {m : Progress} : components = before ++ (name, d) :: after →
      Yields (addItems components (enter components) [] [] before) Progress.start items m →
      items.declares name = false → Starts components ⟨[], name, d, m⟩

/-- At some moment of a compilation `c` is the innermost registration in progress, inside
those of `around`, the nearest first. -/
inductive InProgress (components : Components) : Call → List Call → Prop
  | start {c : Call} : Starts components c → InProgress components c []
  | call {c inner : Call} {around : List Call} : InProgress components c around →
      Calls components (enter components) c inner → InProgress components inner (c :: around)

/-- `inner` registers a member of the map that `outer` registers, so its definition is a
part of the other one. -/
structure Call.MemberOf (inner outer : Call) : Prop where
  path : inner.path = outer.path ++ [outer.name]
  member : (inner.name, inner.definition) ∈ members outer.definition
  smaller : sizeOf inner.definition < sizeOf outer.definition

/-- The registrations of top-level names. -/
def tops (calls : List Call) : List Call := calls.filter (·.path.isEmpty)

section

variable {components : Components} {c : Call} {around : List Call}

theorem Starts.path_eq (h : Starts components c) : c.path = [] := by
  cases h
  rfl

theorem Starts.proper (h : Starts components c) : c.Proper components := by
  cases h with
  | @intro before after name d items m hsplit hy hn =>
    refine ⟨((Conservative.addItems (.enter_top components) _ _ _).yields .primitives hy).1,
      fun _ => ?_⟩
    have hnew : name ∉ Entries.names before := by
      rw [← Bool.not_eq_true, Items.declares_iff, yields_addItems_names hy] at hn
      simpa using hn
    rw [hsplit]
    exact Entries.get?_append_cons hnew

/-- Registering all components has one outcome, whatever is done beyond the budget. -/
theorem outcome_registerAll_stable (beyond : String → Session Unit) :
    outcome (addItems components (enterWithin components beyond components.length) [] [] components)
      Progress.start = outcome (registerAll components) Progress.start := by
  refine outcome_addItems_congr fun {before after name d items m} hsplit hy hn => ?_
  have hp : Call.Proper components ⟨[], name, d, m⟩ := Starts.proper (.intro hsplit hy hn)
  refine outcome_register_congr (c := ⟨[], name, d, m⟩) fun {inner target q} hin hf => ?_
  have hs := hf.spans_of_nests (.enter_top components) hp.grounded hin
  have hlt : unbound components q.registry < unbound components m.registry :=
    hs.unbound_lt rfl (hp.contains rfl)
  have hle := unbound_le_length components m.registry
  obtain ⟨budget, hb⟩ : ∃ n, components.length = n + 1 := ⟨components.length - 1, by omega⟩
  rw [hb]
  exact outcome_enterWithin_stable beyond _ budget hs.grounded hf.contains (by omega) (by omega)

theorem InProgress.proper (h : InProgress components c around) :
    ∀ call ∈ c :: around, call.Proper components := by
  induction h with
  | start hs => simpa using hs.proper
  | call _ hcall ih =>
    refine List.forall_mem_cons.mpr ⟨?_, ih⟩
    exact hcall.proper (.enter_top components) (ih _ List.mem_cons_self)

/-- Every registration in progress spans those inside it, and these register names that
are not bound. -/
theorem InProgress.pairwise_spans (h : InProgress components c around) :
    (c :: around).Pairwise fun inner outer => outer.Spans inner.progress ∧
      (inner.path = [] → inner.progress.registry.contains inner.name = false) := by
  induction h with
  | start _ => exact List.pairwise_singleton _ _
  | @call c inner around hin hcall ih =>
    have hs := hcall.spans (.enter_top components) (hin.proper c List.mem_cons_self)
    refine List.pairwise_cons.mpr ⟨fun outer hm => ⟨?_, hcall.free⟩, ih⟩
    rcases List.mem_cons.mp hm with rfl | hm
    · exact hs
    · exact ((List.pairwise_cons.mp ih).1 outer hm).1.trans hs

/-- A registration in progress is one of a top-level name, or one of a member of the map
around it. -/
theorem InProgress.isChain (h : InProgress components c around) :
    (c :: around).IsChain fun inner outer => inner.path = [] ∨ inner.MemberOf outer := by
  induction h with
  | start _ => exact .singleton _
  | call _ hcall ih =>
    refine .cons_cons ?_ ih
    cases hcall with
    | member hn =>
      exact .inr ⟨hn.path_eq, hn.mem_members, sizeOf_member_lt hn.mem_members⟩
    | target => exact .inl rfl

theorem InProgress.length_add_rank_le (h : InProgress components c around) :
    around.length + c.rank components ≤ components.length * nestingOf components := by
  induction h with
  | @start c hs =>
    have hpos : 0 < components.length :=
      List.length_pos_of_mem (Entries.mem_of_get? (hs.proper.top hs.path_eq))
    rw [List.length_nil, Nat.zero_add]
    exact hs.proper.rank_le hs.path_eq (unbound_le_length components c.progress.registry) hpos
  | @call c inner around hin hcall ih =>
    have hlt := hcall.rank_lt (.enter_top components) (hin.proper c List.mem_cons_self)
    rw [List.length_cons]
    omega

theorem InProgress.length_le (h : InProgress components c around) :
    (c :: around).length ≤ components.length * nestingOf components := by
  have hle := h.length_add_rank_le
  have hpos : 0 < c.rank components := by
    rw [rank, nesting_eq]
    omega
  rw [List.length_cons]
  omega

/-- From one top-level name in progress to the next one inside it, names get fewer. -/
theorem InProgress.tops_decrease (h : InProgress components c around) :
    (tops (c :: around)).Pairwise fun inner outer =>
      unbound components inner.progress.registry < unbound components outer.progress.registry := by
  refine (h.pairwise_spans.filter _).imp_of_mem fun {inner outer} _ ho hs => ?_
  obtain ⟨hm, hpath⟩ := List.mem_filter.mp ho
  have hpath : outer.path = [] := List.isEmpty_iff.mp hpath
  exact hs.1.unbound_lt hpath ((h.proper outer hm).contains hpath)

theorem InProgress.tops_nodup (h : InProgress components c around) :
    ((tops (c :: around)).map Call.name).Nodup := by
  refine List.pairwise_map.mpr ((h.pairwise_spans.filter _).imp_of_mem ?_)
  intro inner outer hi ho hs heq
  have hpath : inner.path = [] := List.isEmpty_iff.mp (List.mem_filter.mp hi).2
  have hpath' : outer.path = [] := List.isEmpty_iff.mp (List.mem_filter.mp ho).2
  -- the outer name is reserved where the inner one is not bound
  have hbound := (hs.1.own hpath').2
  rw [← heq, hs.2 hpath] at hbound
  exact Bool.false_ne_true hbound

end

/-- The recursion of a compilation ends, whatever cycles the references form. What is done
beyond the budget is never asked for, and unfolding `enter` once more changes nothing: it is
the recursion without a budget. Of the registrations in progress at any moment, each is one
of a top-level name or one of a member of the map around it; from a top-level name to the
next one inside it fewer names are left; no top-level name is among them twice; and there
are at most as many as there are components, times the nesting of these. -/
theorem registration_recursion_ends (components : Components) :
    (∀ beyond : String → Session Unit, outcome (addItems components
      (enterWithin components beyond components.length) [] [] components) Progress.start =
        outcome (registerAll components) Progress.start) ∧
    (∀ {name : String} {p : Progress}, p.registry.Grounded →
      Entries.contains components name = true →
      outcome (enterWithin components (enter components) 1 name) p =
        outcome (enter components name) p) ∧
    ∀ {c : Call} {around : List Call}, InProgress components c around →
      ((c :: around).IsChain fun inner outer => inner.path = [] ∨ inner.MemberOf outer) ∧
      ((tops (c :: around)).Pairwise fun inner outer =>
        unbound components inner.progress.registry <
          unbound components outer.progress.registry) ∧
      ((tops (c :: around)).map Call.name).Nodup ∧
      (c :: around).length ≤ components.length * nestingOf components := by
  refine ⟨outcome_registerAll_stable, outcome_enter_unfold, fun h => ?_⟩
  exact ⟨h.isChain, h.tops_decrease, h.tops_nodup, h.length_le⟩

/-- The map `a` has a member of the type `b`, which is a list of such maps. -/
def mutualMap : Tree :=
  .map [("type", .string "map"), ("items", .list [.map [("x", .map [("type", .string "b")])]])]

def mutualList : Tree := .map [("type", .string "list"), ("item_types", .list [.string "a"])]

def mutualComponents : Components := [("a", mutualMap), ("b", mutualList)]

/-- The registrations of `a`, of its member `x` and of `b`, each inside the one before. -/
def mutualCalls : List Call :=
  [⟨[], "b", mutualList, Progress.start.update (·.reserve "a")⟩,
    ⟨["a"], "x", .map [("type", .string "b")], Progress.start.update (·.reserve "a")⟩,
    ⟨[], "a", mutualMap, Progress.start⟩]

/-- The list finds `a` reserved and goes no deeper: three registrations, where two
components with one member allow four. -/
theorem mutualCalls_in_progress : ∃ c around, mutualCalls = c :: around ∧
    InProgress mutualComponents c around ∧ ((tops mutualCalls).map Call.name).Nodup ∧
    mutualCalls.length ≤ mutualComponents.length * nestingOf mutualComponents ∧
    nestingOf mutualComponents = 2 := by
  have hsplit : mutualComponents = [] ++ ("a", mutualMap) :: [("b", mutualList)] := rfl
  have hitems : mutualMap.get? "items" = some (.list ([] ++
      .map ([] ++ ("x", .map [("type", .string "b")]) :: []) :: [])) := rfl
  have hmap : WellHeaded mutualComponents mutualMap := ⟨⟨"map", rfl, .inr (.inl rfl)⟩, .inl rfl⟩
  have hmember : WellHeaded mutualComponents (.map [("type", .string "b")]) :=
    ⟨⟨"b", rfl, .inr (.inr (.inr rfl))⟩, .inl rfl⟩
  have hcalls : InProgress mutualComponents _ _ :=
    .call (.call (.start (.intro hsplit rfl rfl))
      (.member (.member ⟨hmap, rfl⟩ rfl hitems rfl rfl rfl)))
      (.target (.innerReference hmember (by simp) rfl) rfl rfl)
  obtain ⟨-, -, hn, hl⟩ := (registration_recursion_ends mutualComponents).2.2 hcalls
  refine ⟨_, _, rfl, hcalls, hn, hl, ?_⟩
  simp [mutualComponents, mutualMap, mutualList, nesting_eq, members, Tree.get?, Entries.get?,
    Tree.entries]

end ComponentSchema
