import Mathlib.Data.List.Forall2
import Mathlib.Data.List.Induction
import Mathlib.Data.List.Nodup
import Statechart.Definition.Builder
import Statechart.Proofs.Tree.Places

/-!
# Drafts

Building a draft loses nothing without saying so. Every state of a draft has a place, siblings with
the same key having the same one (`Draft.places`). What a state declares that has no room in a
definition is a flaw of it (`Draft.flaws`): a delay that is no whole number of milliseconds, and the
second and later ones of equal delays and of children with the same key. If no state has a flaw, the
states of the definition are those of the draft, each at its place and with all that was declared
for it (`Keeps`); otherwise the flaws of all states are what is reported (`Draft.build_spec`).
-/

namespace Statechart

/-! ### Lists -/

section Repeats

variable {κ : Type} [DecidableEq κ]

/-- The items that come up earlier in the list, or are among `before`. -/
def repeatsAfter (before l : List κ) : List κ :=
  (l.zipIdx.filter fun x => x.1 ∈ l.take x.2 ++ before).map Prod.fst

/-- The second and later ones of equal items. -/
def repeats (l : List κ) : List κ := repeatsAfter [] l

@[simp] theorem repeatsAfter_nil (before : List κ) : repeatsAfter before [] = [] := rfl

theorem repeatsAfter_cons (before : List κ) (a : κ) (rest : List κ) :
    repeatsAfter before (a :: rest) =
      (if a ∈ before then [a] else []) ++ repeatsAfter (a :: before) rest := by
  have hrest : (rest.zipIdx 1).filter (fun x => x.1 ∈ (a :: rest).take x.2 ++ before) =
      (rest.zipIdx.filter fun x => x.1 ∈ rest.take x.2 ++ a :: before).map
        (fun x => (x.1, x.2 + 1)) := by
    rw [List.zipIdx_succ, List.filter_map]
    congr 1
    refine List.filter_congr fun x _ => decide_eq_decide.mpr ?_
    simp only [List.take_succ_cons, List.cons_append, List.mem_cons, List.mem_append, or_left_comm]
  rw [repeatsAfter, List.zipIdx_cons, List.filter_cons, Nat.zero_add, hrest]
  by_cases ha : a ∈ before <;> simp [ha, repeatsAfter, Function.comp_def]

theorem repeatsAfter_eq_nil {before l : List κ} :
    repeatsAfter before l = [] ↔ l.Nodup ∧ ∀ a ∈ l, a ∉ before := by
  induction l generalizing before with
  | nil => simp
  | cons a rest ih =>
    rw [repeatsAfter_cons, List.append_eq_nil_iff, ih, List.nodup_cons, List.forall_mem_cons]
    by_cases ha : a ∈ before
    · simp [ha]
    · simp only [ha, if_false, true_and, not_false_eq_true, List.mem_cons, not_or]
      constructor
      · rintro ⟨hnodup, hrest⟩
        exact ⟨⟨fun hmem => (hrest a hmem).1 rfl, hnodup⟩, fun b hb => (hrest b hb).2⟩
      · rintro ⟨⟨hmem, hnodup⟩, hbefore⟩
        exact ⟨hnodup, fun b hb => ⟨fun hab => hmem (hab ▸ hb), hbefore b hb⟩⟩

theorem repeats_eq_nil {l : List κ} : repeats l = [] ↔ l.Nodup := by
  rw [repeats, repeatsAfter_eq_nil]
  simp

end Repeats

theorem exists_of_forall₂ {α β : Type} {R : α → β → Prop} {as : List α} {bs : List β} {a : α}
    (h : List.Forall₂ R as bs) (ha : a ∈ as) : ∃ b ∈ bs, R a b := by
  induction h with
  | nil => cases ha
  | @cons a' b' as' bs' hR hrest ih =>
    rcases List.mem_cons.mp ha with rfl | ha
    · exact ⟨b', List.mem_cons_self, hR⟩
    · obtain ⟨b, hb, hab⟩ := ih ha
      exact ⟨b, List.mem_cons_of_mem _ hb, hab⟩

/-! ### Maps filled one by one -/

namespace Keyed

variable {α : Type} {key : α → String}

theorem perm_insert {a : α} {l : List α} (h : key a ∉ l.map key) :
    (insert key a l).Perm (a :: l) := by
  induction l with
  | nil => exact .refl _
  | cons b rest ih =>
    simp only [List.map_cons, List.mem_cons, not_or] at h
    simp only [insert]
    split
    · exact .refl _
    · split
      · exact ((ih h.2).cons b).trans (.swap a b rest)
      · rename_i hab hba
        exact absurd (String.le_antisymm hba hab) h.1

/-- Items with different keys are all there once they are in order. -/
theorem perm_ofList {l : List α} (h : (l.map key).Nodup) : (ofList key l).Perm l := by
  suffices hfold : ∀ sorted, ((sorted ++ l).map key).Nodup →
      (l.foldl (fun sorted a => insert key a sorted) sorted).Perm (sorted ++ l) from hfold [] h
  clear h
  induction l with
  | nil => exact fun sorted _ => by simp
  | cons a rest ih =>
    intro sorted h
    have hperm : (insert key a sorted ++ rest).Perm (sorted ++ a :: rest) := by
      rw [List.map_append, List.nodup_append] at h
      have ha : key a ∉ sorted.map key := fun hmem => h.2.2 _ hmem _ (by simp) rfl
      exact ((perm_insert ha).append_right rest).trans List.perm_middle.symm
    exact (ih _ ((hperm.map key).nodup_iff.mpr h)).trans hperm

end Keyed

namespace Draft

/-! ### What drafts are made of -/

def children : Draft → List Draft
  | ⟨_, children⟩ => children

mutual

/-- All states in pre-order, each with the keys that lead to it. -/
def places (place : List String) : Draft → List (List String × Draft)
  | ⟨body, children⟩ => (place, ⟨body, children⟩) :: placesAll place children

def placesAll (place : List String) : List Draft → List (List String × Draft)
  | [] => []
  | d :: rest => d.places (place ++ [d.key]) ++ placesAll place rest

end

/-- A declaration for a state. -/
inductive Declaration where
  | initial (key : String)
  | entry (action : String)
  | exit (action : String)
  | on (event : String) (t : TransitionDef)
  | after (delay : Duration) (t : TransitionDef)
  | invoke (service : String)
  | describe (text : String)
  | state (child : Draft)

namespace Declaration

def initial? : Declaration → Option String
  | .initial key => some key
  | _ => none

def entry? : Declaration → Option String
  | .entry action => some action
  | _ => none

def exit? : Declaration → Option String
  | .exit action => some action
  | _ => none

def on? : Declaration → Option (String × TransitionDef)
  | .on event t => some (event, t)
  | _ => none

def after? : Declaration → Option (Duration × TransitionDef)
  | .after delay t => some (delay, t)
  | _ => none

def invoke? : Declaration → Option InvokeDef
  | .invoke service => some ⟨service, none⟩
  | _ => none

def description? : Declaration → Option String
  | .describe text => some text
  | _ => none

def child? : Declaration → Option Draft
  | .state child => some child
  | _ => none

end Declaration

def declare (d : Draft) : Declaration → Draft
  | .initial key => d.initial key
  | .entry action => d.entry action
  | .exit action => d.exit action
  | .on event t => d.on event t
  | .after delay t => d.after delay t
  | .invoke service => d.invoke service
  | .describe text => d.describe text
  | .state child => d.state child

/-- The draft of a state for which the declarations are made one after another. -/
def declared (key : String) (declarations : List Declaration) : Draft :=
  declarations.foldl declare (new key)

/-- The draft holds what the declarations say, each list in their order; the last one to name an
initial child or to describe the state counts. -/
structure Collects (key : String) (declarations : List Declaration) (d : Draft) : Prop where
  key : d.body.key = key
  initial : d.body.initial = declarations.reverse.findSome? Declaration.initial?
  entry : d.body.entry = declarations.filterMap Declaration.entry?
  exit : d.body.exit = declarations.filterMap Declaration.exit?
  on : d.body.on = declarations.filterMap Declaration.on?
  after : d.body.after = declarations.filterMap Declaration.after?
  invoke : d.body.invoke = declarations.filterMap Declaration.invoke?
  description : d.body.description = declarations.reverse.findSome? Declaration.description?
  children : d.children = declarations.filterMap Declaration.child?

theorem body_declare (d : Draft) (c : Declaration) :
    (d.declare c).body =
      { d.body with
        initial := c.initial?.or d.body.initial
        entry := d.body.entry ++ c.entry?.toList
        exit := d.body.exit ++ c.exit?.toList
        on := d.body.on ++ c.on?.toList
        after := d.body.after ++ c.after?.toList
        invoke := d.body.invoke ++ c.invoke?.toList
        description := c.description?.or d.body.description } := by
  obtain ⟨body, children⟩ := d
  simp only [declare, Draft.initial, Draft.entry, Draft.exit, Draft.on, Draft.after, Draft.invoke,
    Draft.describe, Draft.state, updateBody]
  cases c <;>
    simp [Draft.body, Declaration.initial?, Declaration.entry?, Declaration.exit?, Declaration.on?,
      Declaration.after?, Declaration.invoke?, Declaration.description?]

theorem children_declare (d : Draft) (c : Declaration) :
    (d.declare c).children = d.children ++ c.child?.toList := by
  obtain ⟨body, children⟩ := d
  cases c with
  | state child => rfl
  | _ => exact (List.append_nil _).symm

theorem findSome?_reverse_concat {α β : Type} (f : α → Option β) (l : List α) (a : α) :
    (l ++ [a]).reverse.findSome? f = (f a).or (l.reverse.findSome? f) := by
  rw [List.reverse_append, List.findSome?_append]
  cases h : f a <;> simp [h]

theorem filterMap_concat {α β : Type} (f : α → Option β) (l : List α) (a : α) :
    (l ++ [a]).filterMap f = l.filterMap f ++ (f a).toList := by
  rw [List.filterMap_append]
  cases h : f a <;> simp [h]

theorem Collects.declare {key : String} {declarations : List Declaration} {d : Draft}
    (h : Collects key declarations d) (c : Declaration) :
    Collects key (declarations ++ [c]) (d.declare c) := by
  constructor
  case children => rw [children_declare, h.children, filterMap_concat]
  all_goals rw [body_declare]
  case key => exact h.key
  case initial => rw [h.initial, findSome?_reverse_concat]
  case entry => rw [h.entry, filterMap_concat]
  case exit => rw [h.exit, filterMap_concat]
  case on => rw [h.on, filterMap_concat]
  case after => rw [h.after, filterMap_concat]
  case invoke => rw [h.invoke, filterMap_concat]
  case description => rw [h.description, findSome?_reverse_concat]

theorem collects_declared (key : String) (declarations : List Declaration) :
    Collects key declarations (declared key declarations) := by
  induction declarations using List.reverseRecOn with
  | nil => exact ⟨rfl, rfl, rfl, rfl, rfl, rfl, rfl, rfl, rfl⟩
  | append_singleton front c ih =>
    rw [declared, List.foldl_append]
    exact ih.declare c

/-! ### Flaws -/

/-- What a state declares and a definition has no room for: delays that are no whole number of
milliseconds, and the second and later ones of equal delays and of children with the same key. -/
def flaws (id : String) (d : Draft) : List Defect :=
  let delays := d.body.after.map Prod.fst
  (delays.filter fun delay => ¬ delay.IsWholeMillis).map
      (fun delay => .invalidDelay id delay.text) ++
    (repeats (delays.filter fun delay => delay.IsWholeMillis)).map
      (fun delay => .duplicateDelay id (min delay.toMillis Number.greatestWord)) ++
    (repeats (d.children.map key)).map fun key => .duplicateState id key

/-- A state without flaws. -/
structure Sound (d : Draft) : Prop where
  whole : ∀ e ∈ d.body.after, e.1.IsWholeMillis
  delays : (d.body.after.map Prod.fst).Nodup
  keys : (d.children.map key).Nodup

theorem flaws_eq_nil {id : String} {d : Draft} : d.flaws id = [] ↔ d.Sound := by
  simp only [flaws, List.append_eq_nil_iff, List.map_eq_nil_iff, repeats_eq_nil]
  constructor
  · rintro ⟨⟨hwhole, hdelays⟩, hkeys⟩
    have hall : ∀ delay ∈ d.body.after.map Prod.fst, delay.IsWholeMillis := by
      simpa [List.filter_eq_nil_iff] using hwhole
    rw [List.filter_eq_self.mpr (by simpa using hall)] at hdelays
    exact ⟨fun e he => hall e.1 (List.mem_map_of_mem he), hdelays, hkeys⟩
  · rintro ⟨hwhole, hdelays, hkeys⟩
    refine ⟨⟨?_, hdelays.filter _⟩, hkeys⟩
    simpa [List.filter_eq_nil_iff] using fun delay t h => hwhole (delay, t) h

/-- The delays before are whole, and their milliseconds have been seen. -/
structure Sees (before : List Duration) (seen : List Nat) : Prop where
  whole : ∀ delay ∈ before, delay.IsWholeMillis
  mem_iff : ∀ n, n ∈ seen ↔ ∃ delay ∈ before, delay.toMillis = n

section Sees

variable {before : List Duration} {seen : List Nat} {delay : Duration}

theorem sees_nil : Sees [] [] := ⟨by simp, by simp⟩

theorem Sees.toMillis_mem (h : Sees before seen) (hwhole : delay.IsWholeMillis) :
    delay.toMillis ∈ seen ↔ delay ∈ before := by
  rw [h.mem_iff]
  constructor
  · rintro ⟨other, hother, hsame⟩
    exact (Duration.toMillis_inj (h.whole other hother) hwhole).mp hsame ▸ hother
  · exact fun hmem => ⟨delay, hmem, rfl⟩

theorem Sees.fresh (h : Sees before seen) (hwhole : delay.IsWholeMillis) :
    Sees (delay :: before) (delay.toMillis :: seen) where
  whole := List.forall_mem_cons.mpr ⟨hwhole, h.whole⟩
  mem_iff n := by simp [h.mem_iff, eq_comm]

theorem Sees.again (h : Sees before seen) (hmem : delay ∈ before) :
    Sees (delay :: before) seen where
  whole := List.forall_mem_cons.mpr ⟨h.whole delay hmem, h.whole⟩
  mem_iff n := by
    rw [h.mem_iff]
    constructor
    · exact fun ⟨other, hother, hn⟩ => ⟨other, List.mem_cons_of_mem _ hother, hn⟩
    · rintro ⟨other, hother, hn⟩
      rcases List.mem_cons.mp hother with rfl | hother
      · exact ⟨other, hmem, hn⟩
      · exact ⟨other, hother, hn⟩

end Sees

theorem perm_delayDefects (id : String) (declared : List (Duration × TransitionDef))
    {before : List Duration} {seen : List Nat} (h : Sees before seen) :
    (delayDefects id seen declared).Perm
      (((declared.map Prod.fst).filter fun delay => ¬ delay.IsWholeMillis).map
          (fun delay => .invalidDelay id delay.text) ++
        (repeatsAfter before ((declared.map Prod.fst).filter fun delay => delay.IsWholeMillis)).map
          fun delay => .duplicateDelay id (min delay.toMillis Number.greatestWord)) := by
  induction declared generalizing before seen with
  | nil => exact .refl _
  | cons e rest ih =>
    obtain ⟨delay, t⟩ := e
    by_cases hwhole : delay.IsWholeMillis
    · have hmem := h.toMillis_mem hwhole
      by_cases hrepeated : delay ∈ before
      · simpa [delayDefects, hwhole, hmem, hrepeated, repeatsAfter_cons] using
          ((ih (h.again hrepeated)).cons _).trans List.perm_middle.symm
      · simpa [delayDefects, hwhole, hmem, hrepeated, repeatsAfter_cons] using ih (h.fresh hwhole)
    · simpa [delayDefects, hwhole] using ih h

theorem perm_childDefects (id : String) (seen : List String) (children : List Draft) :
    (childDefects id seen children).Perm
      (children.flatMap (fun c => c.defects (id ++ "." ++ c.key)) ++
        (repeatsAfter seen (children.map key)).map fun key => .duplicateState id key) := by
  induction children generalizing seen with
  | nil => exact .refl _
  | cons child rest ih =>
    simp only [childDefects, List.map_cons, repeatsAfter_cons, List.flatMap_cons, List.map_append,
      List.append_assoc]
    refine .append_left _ ?_
    split
    · exact ((ih _).cons _).trans List.perm_middle.symm
    · exact ih _

/-- The defects of a draft are the flaws of the state itself and the defects of its children. -/
theorem perm_flaws_append (d : Draft) (id : String) :
    (d.defects id).Perm
      (d.flaws id ++ d.children.flatMap fun c => c.defects (id ++ "." ++ c.key)) := by
  obtain ⟨body, children⟩ := d
  rw [defects, flaws]
  refine ((perm_delayDefects id body.after sees_nil).append
    (perm_childDefects id [] children)).trans ?_
  simp only [List.append_assoc]
  exact (List.perm_append_comm.append_left _).append_left _

mutual

/-- The defects of a draft are the flaws of its states. -/
theorem perm_defects : ∀ (d : Draft) (machine : String) (place : List String),
    (d.defects (Text.join (machine :: place))).Perm
      ((d.places place).flatMap fun x => x.2.flaws (Text.join (machine :: x.1)))
  | ⟨body, children⟩, machine, place => by
    rw [places, List.flatMap_cons]
    exact (perm_flaws_append ⟨body, children⟩ _).trans
      ((perm_defectsAll children machine place).append_left _)

theorem perm_defectsAll : ∀ (children : List Draft) (machine : String) (place : List String),
    (children.flatMap fun c => c.defects (Text.join (machine :: place) ++ "." ++ c.key)).Perm
      ((placesAll place children).flatMap fun x => x.2.flaws (Text.join (machine :: x.1)))
  | [], _, _ => .refl _
  | child :: rest, machine, place => by
    have hid : Text.join (machine :: place) ++ "." ++ child.key =
        Text.join (machine :: (place ++ [child.key])) := by
      rw [← List.cons_append, Text.join_append (by simp) (by simp)]
      rfl
    rw [placesAll, List.flatMap_cons, List.flatMap_append, hid]
    exact (perm_defects child machine (place ++ [child.key])).append
      (perm_defectsAll rest machine place)

end

/-- What is reported for a draft is exactly the flaws of its states. -/
theorem perm_reported (d : Draft) :
    (d.defects d.key).Perm
      ((d.places []).flatMap fun x => x.2.flaws (Text.join (d.key :: x.1))) :=
  d.perm_defects d.key []

theorem defects_eq_nil (d : Draft) : d.defects d.key = [] ↔ ∀ x ∈ d.places [], x.2.Sound := by
  have hnil : d.defects d.key = [] ↔
      ((d.places []).flatMap fun x => x.2.flaws (Text.join (d.key :: x.1))) = [] :=
    ⟨fun h => List.nil_perm.mp (h ▸ d.perm_reported),
      fun h => List.perm_nil.mp (h ▸ d.perm_reported)⟩
  rw [hnil, List.flatMap_eq_nil_iff]
  exact forall₂_congr fun x _ => flaws_eq_nil

/-! ### What is built -/

/-- All that is declared for a state stands in its definition, each list in the same order. -/
structure Keeps (b : DraftBody) (s : StateBody) : Prop where
  key : s.key = b.key
  initial : s.initial = b.initial
  entry : s.entry.items = b.entry
  exit : s.exit.items = b.exit
  on : ∀ event, (s.on.find? event).map OneOrMany.items =
    if event ∈ b.on.map Prod.fst then some ((b.on.filter fun e => e.1 = event).map Prod.snd)
    else none
  after : s.after.entries.Perm (b.after.map fun e => (toString e.1.toMillis, e.2))
  invoke : s.invoke.items = b.invoke
  description : s.description = b.description

theorem find?_candidates (declared : List (String × TransitionDef)) (event : String) :
    (candidates declared).find? event =
      if event ∈ declared.map Prod.fst then
        some (.many ((declared.filter fun e => e.1 = event).map Prod.snd))
      else none := by
  induction declared using List.reverseRecOn with
  | nil => rfl
  | append_singleton front e ih =>
    have hstep : candidates (front ++ [e]) = (candidates front).insert e.1
        ((((candidates front).find? e.1).getD (.many [])).push e.2) := by
      rw [candidates, List.foldl_append]
      rfl
    rw [hstep, Dict.find?_insert]
    by_cases he : e.1 = event
    · subst he
      have hold : (((candidates front).find? e.1).getD (.many [])).items =
          (front.filter fun x => x.1 = e.1).map Prod.snd := by
        rw [ih]
        split
        · rfl
        · rename_i hnone
          have hempty : front.filter (fun x => x.1 = e.1) = [] := by
            refine List.filter_eq_nil_iff.mpr fun x hx hsame => hnone ?_
            exact of_decide_eq_true hsame ▸ List.mem_map_of_mem hx
          rw [hempty]
          rfl
      simp [OneOrMany.push, hold]
    · rw [if_neg he, ih]
      simp only [List.map_append, List.map_cons, List.map_nil, List.mem_append, List.mem_singleton,
        Ne.symm he, or_false, List.filter_append, List.filter_singleton, decide_eq_false he]
      simp

/-- The texts of whole numbers of milliseconds are different for different delays. -/
theorem nodup_texts {declared : List (Duration × TransitionDef)}
    (hwhole : ∀ e ∈ declared, e.1.IsWholeMillis) (hnodup : (declared.map Prod.fst).Nodup) :
    (declared.map fun e => toString e.1.toMillis).Nodup := by
  have hmap : declared.map (fun e => toString e.1.toMillis) =
      (declared.map Prod.fst).map fun delay => toString delay.toMillis := by
    rw [List.map_map]
    rfl
  have hall : ∀ delay ∈ declared.map Prod.fst, delay.IsWholeMillis :=
    List.forall_mem_map.mpr hwhole
  rw [hmap]
  refine hnodup.map_on fun a ha b hb hsame => ?_
  exact (Duration.toMillis_inj (hall a ha) (hall b hb)).mp (toString_inj.mp hsame)

theorem Sound.keeps {d : Draft} (h : d.Sound) : Keeps d.body (DraftBody.toBody d.body) where
  key := rfl
  initial := rfl
  entry := rfl
  exit := rfl
  on event := by
    rw [DraftBody.toBody, find?_candidates]
    split <;> rfl
  after := by
    have hall : d.body.after.filter (fun e => e.1.IsWholeMillis) = d.body.after :=
      List.filter_eq_self.mpr fun e he => decide_eq_true (h.whole e he)
    rw [DraftBody.toBody, Draft.delays, hall]
    refine Keyed.perm_ofList ?_
    rw [List.map_map]
    exact nodup_texts h.whole h.delays
  invoke := rfl
  description := rfl

@[simp] theorem key_toDef_arrange (d : Draft) : d.toDef.arrange.key = d.key := by
  cases d
  rfl

theorem arrangeAll_toDefs (children : List Draft) :
    StateDef.arrangeAll (toDefs children) = children.map fun c => c.toDef.arrange := by
  induction children with
  | nil => rfl
  | cons d rest ih => rw [toDefs, StateDef.arrangeAll, ih, List.map_cons]

theorem keys_toDefs (children : List Draft) :
    (StateDef.arrangeAll (toDefs children)).map StateDef.key = children.map key := by
  rw [arrangeAll_toDefs, List.map_map]
  exact List.map_congr_left fun c _ => key_toDef_arrange c

end Draft

theorem StateDef.placesAll_eq_flatMap (place : List String) (ds : List StateDef) :
    placesAll place ds = ds.flatMap fun d => d.places (place ++ [d.key]) := by
  induction ds with
  | nil => rfl
  | cons d rest ih => rw [placesAll, List.flatMap_cons, ih]

namespace Draft

/-- A state of a definition is what is made of a state of the draft, and at the same place. -/
def Makes (made : List String × StateDef) (drafted : List String × Draft) : Prop :=
  made.1 = drafted.1 ∧ Keeps drafted.2.body made.2.body

mutual

theorem places_arrange : ∀ (d : Draft) (place : List String),
    (∀ x ∈ d.places place, x.2.Sound) →
      ∃ states, states.Perm (d.toDef.arrange.places place) ∧
        List.Forall₂ Makes states (d.places place)
  | ⟨body, children⟩, place, h => by
    obtain ⟨hsound, hbelow⟩ := List.forall_mem_cons.mp h
    obtain ⟨states, hperm, hmakes⟩ := placesAll_arrangeAll children place hbelow
    have hkeys : ((StateDef.arrangeAll (toDefs children)).map StateDef.key).Nodup := by
      rw [keys_toDefs]
      exact hsound.keys
    have hsort := (Keyed.perm_ofList hkeys).symm.flatMap_right
      fun d => d.places (place ++ [d.key])
    rw [← StateDef.placesAll_eq_flatMap, ← StateDef.placesAll_eq_flatMap] at hsort
    have hroot :
        Makes (place, (⟨body, children⟩ : Draft).toDef.arrange) (place, ⟨body, children⟩) :=
      ⟨rfl, hsound.keeps⟩
    exact ⟨_ :: states, (hperm.trans hsort).cons _, .cons hroot hmakes⟩

theorem placesAll_arrangeAll : ∀ (children : List Draft) (place : List String),
    (∀ x ∈ placesAll place children, x.2.Sound) →
      ∃ states,
        states.Perm (StateDef.placesAll place (StateDef.arrangeAll (toDefs children))) ∧
          List.Forall₂ Makes states (placesAll place children)
  | [], _, _ => ⟨[], .refl _, .nil⟩
  | d :: rest, place, h => by
    obtain ⟨hfirst, hrest⟩ := List.forall_mem_append.mp h
    obtain ⟨front, hfront, hmakesFront⟩ := places_arrange d (place ++ [d.key]) hfirst
    obtain ⟨back, hback, hmakesBack⟩ := placesAll_arrangeAll rest place hrest
    refine ⟨front ++ back, ?_, List.rel_append hmakesFront hmakesBack⟩
    rw [toDefs, StateDef.arrangeAll, StateDef.placesAll, key_toDef_arrange]
    exact hfront.append hback

end

theorem build_eq_ok {d : Draft} {m : Definition} :
    d.build = .ok m ↔ d.defects d.key = [] ∧ m = .ofRoot d.toDef := by
  rw [build]
  cases d.defects d.key with
  | nil => simp [eq_comm]
  | cons first rest => simp

theorem build_eq_error {d : Draft} {defects : List Defect} :
    d.build = .error defects ↔ d.defects d.key = defects ∧ defects ≠ [] := by
  rw [build]
  cases d.defects d.key with
  | nil => simp +contextual [eq_comm]
  | cons first rest =>
    simp only [Except.error.injEq, iff_self_and]
    rintro rfl
    exact List.cons_ne_nil first rest

theorem places_of_build {d : Draft} {m : Definition} (h : d.build = .ok m) :
    ∃ states, states.Perm (m.root.places []) ∧ List.Forall₂ Makes states (d.places []) := by
  obtain ⟨hnone, rfl⟩ := build_eq_ok.mp h
  exact d.places_arrange [] (d.defects_eq_nil.mp hnone)

/-- What a draft declares for a state is found at its place. -/
theorem exists_made {d : Draft} {m : Definition} (h : d.build = .ok m)
    {drafted : List String × Draft} (hdrafted : drafted ∈ d.places []) :
    ∃ s, m.root.at? drafted.1 = some s ∧ Keeps drafted.2.body s.body := by
  obtain ⟨states, hperm, hmakes⟩ := places_of_build h
  obtain ⟨made, hmade, hplace, hkeeps⟩ := exists_of_forall₂ hmakes.flip hdrafted
  have hmem := hperm.mem_iff.mp hmade
  exact ⟨made.2, Definition.at?_of_mem_places (hplace ▸ hmem), hkeeps⟩

/-- What is found at a place was declared in the draft. -/
theorem exists_drafted {d : Draft} {m : Definition} (h : d.build = .ok m) {place : List String}
    {s : StateDef} (hs : m.root.at? place = some s) :
    ∃ drafted ∈ d.places [], drafted.1 = place ∧ Keeps drafted.2.body s.body := by
  obtain ⟨states, hperm, hmakes⟩ := places_of_build h
  obtain ⟨n, hseat⟩ := Definition.exists_seat hs
  have hmade := hperm.mem_iff.mpr (List.mem_of_getElem? hseat.places_eq)
  obtain ⟨drafted, hdrafted, hplace, hkeeps⟩ := exists_of_forall₂ hmakes hmade
  exact ⟨drafted, hdrafted, hplace.symm, hkeeps⟩

/-- **Building loses nothing silently**: a draft whose states have no flaws becomes a definition
with all its states, each at a place of its own with all that was declared for it, in the order of
declaration; for any other draft the flaws of its states are reported, each as often as it occurs,
and nothing else is. -/
theorem build_spec (d : Draft) :
    ((∃ m, d.build = .ok m) ↔ ∀ x ∈ d.places [], x.2.Sound) ∧
      (∀ m, d.build = .ok m → m.id = d.key ∧ ((m.root.places []).map Prod.fst).Nodup ∧
        ∃ states, states.Perm (m.root.places []) ∧ List.Forall₂ Makes states (d.places [])) ∧
      (∀ defects, d.build = .error defects → defects ≠ [] ∧
        defects.Perm ((d.places []).flatMap fun x => x.2.flaws (Text.join (d.key :: x.1)))) ∧
      ∀ key declarations, Collects key declarations (declared key declarations) := by
  refine ⟨?_, fun m hm => ?_, fun defects hdefects => ?_, collects_declared⟩
  · rw [← d.defects_eq_nil]
    exact ⟨fun ⟨m, hm⟩ => (build_eq_ok.mp hm).1, fun h => ⟨_, build_eq_ok.mpr ⟨h, rfl⟩⟩⟩
  · obtain ⟨-, rfl⟩ := build_eq_ok.mp hm
    exact ⟨d.key_toDef_arrange, Definition.nodup_places _, places_of_build hm⟩
  · obtain ⟨rfl, hne⟩ := build_eq_error.mp hdefects
    exact ⟨hne, d.perm_reported⟩

/-- A door that is shut on a push, or after a while. -/
def door : Draft :=
  declared "Door" [.initial "open",
    .state (declared "open" [.on "push" (.goto "shut"), .entry "creak", .on "push" .targetless,
      .after (.ofMillis 500) (.goto "shut")]),
    .state (new "shut")]

/-- The door with a second state of the same name, in which a delay is not whole. -/
def crookedDoor : Draft :=
  door.state ((new "shut").after (.ofNanos 1500000) (.goto "open"))

theorem door_build_spec :
    (∃ m, door.build = .ok m ∧ m.id = "Door" ∧
      ∃ states, states.Perm (m.root.places []) ∧ List.Forall₂ Makes states (door.places [])) ∧
    ∃ defects, crookedDoor.build = .error defects ∧
      defects.Perm [.duplicateState "Door" "shut", .invalidDelay "Door.shut" "1.5ms"] := by
  have hdoor : door.build = .ok (.ofRoot door.toDef) := by rfl
  have hcrooked : crookedDoor.build =
      .error [.invalidDelay "Door.shut" "1.5ms", .duplicateState "Door" "shut"] := by rfl
  have hflaws : (crookedDoor.places []).flatMap
      (fun x => x.2.flaws (Text.join (crookedDoor.key :: x.1))) =
      [.duplicateState "Door" "shut", .invalidDelay "Door.shut" "1.5ms"] := by rfl
  obtain ⟨hid, -, hmade⟩ := (build_spec door).2.1 _ hdoor
  refine ⟨⟨_, hdoor, hid, hmade⟩, _, hcrooked, ?_⟩
  rw [← hflaws]
  exact ((build_spec crookedDoor).2.2.1 _ hcrooked).2

end Draft

end Statechart
