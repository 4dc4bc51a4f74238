import Conduit.Proofs.Assignment
import Conduit.Proofs.Destructuring.Targets

/-!
# Destructuring

An assignment whose targets lead to different plain variables, found or new ones, hands its values
out exactly.  It succeeds if there is at most one target for the rest, if the number of values suits
the targets, and if every variable takes its value.  Reading the targets back then gives the values
that were assigned, the fixed targets first and the items of the rest behind them, wherever the
target for the rest stands.
-/

namespace Conduit

open Act (distribute writePlace writeAll writesOf done_of_bind)

/-! ## Writes to plain variables -/

namespace World

/-- What stands at a place is a plain variable, held to no kind or to that of the value.  The absent
value has no kind. -/
def Accepts (w : World) (place : Place) (v : Value) : Prop :=
  ∃ kind kept old, v.kind? = some kind ∧ w.variableAt place = .plain kept old ∧
    ∀ other, kept = some other → kind = other

/-- A place is a plain variable that exists. -/
def IsPlain (w : World) (place : Place) : Prop :=
  ∃ id kept old, place = .bound id ∧ w.vars.get? id = some (.plain kept old)

/-- From one state to the other each value has been given to the variable at its place, and nothing
else has changed. -/
structure Given (writes : List (Place × Value)) (w w' : World) : Prop where
  outside : w' = { w with vars := w'.vars }
  given : ∀ id v, (.bound id, v) ∈ writes → w'.vars.get? id = some (.plain v.kind? v)
  others : ∀ id, .bound id ∉ writes.map Prod.fst → w'.vars.get? id = w.vars.get? id

variable {w w' w'' : World} {id : VariableId} {v : Value}

theorem variableAt_of_get? {x : Variable} (h : w.vars.get? id = some x) :
    w.variableAt (.bound id) = x := by
  rw [variableAt, h, Option.getD_some]

namespace Given

theorem nil (w : World) : Given [] w w where
  outside := rfl
  given _ _ h := nomatch h
  others _ _ := rfl

theorem single {kept : Option Kind} {old : Value} (h : w.vars.get? id = some (.plain kept old))
    (v : Value) :
    Given [(.bound id, v)] w { w with vars := w.vars.modify id fun _ ↦ .plain v.kind? v } where
  outside := rfl
  given other u hmem := by
    obtain ⟨⟨⟩, rfl⟩ := Prod.mk.inj (List.mem_singleton.mp hmem)
    rw [Table.get?_modify, if_pos rfl, h, Option.map_some]
  others other hother := by
    have hne : id ≠ other := by
      rintro rfl
      exact hother (by simp)
    exact (Table.get?_modify _ _ _ _).trans (if_neg hne)

theorem cons {place : Place} {writes : List (Place × Value)} (h : Given [(place, v)] w w')
    (h' : Given writes w' w'') (hplace : place ∉ writes.map Prod.fst) :
    Given ((place, v) :: writes) w w'' where
  outside := by rw [h'.outside, h.outside]
  given id u hmem := by
    rcases List.mem_cons.mp hmem with heq | hmem
    · obtain ⟨rfl, rfl⟩ := Prod.mk.inj heq
      rw [h'.others id hplace]
      exact h.given id u List.mem_cons_self
    · exact h'.given id u hmem
  others id hid := by
    rw [List.map_cons, List.mem_cons, not_or] at hid
    rw [h'.others id hid.2]
    exact h.others id (by simpa using hid.1)

/-- What is no target keeps its variable. -/
theorem isPlain {writes : List (Place × Value)} (h : Given writes w w') {place : Place}
    (hplain : w.IsPlain place) (hplace : place ∉ writes.map Prod.fst) :
    w'.IsPlain place ∧ ∀ u, w'.Accepts place u ↔ w.Accepts place u := by
  obtain ⟨id, kept, old, rfl, hid⟩ := hplain
  have hsame : w'.vars.get? id = some (.plain kept old) := (h.others id hplace).trans hid
  refine ⟨⟨id, kept, old, rfl, hsame⟩, fun u ↦ ?_⟩
  unfold Accepts
  rw [variableAt_of_get? hid, variableAt_of_get? hsame]

end Given

end World

namespace Act

open World (Given)

variable {w w' : World} {place : Place} {v : Value}

theorem writePlain_eq {kind : Kind} (hkind : v.kind? = some kind) (id : VariableId)
    (kept : Option Kind) (w : World) :
    writePlain id kept v w =
      if ∀ other, kept = some other → kind = other then
        (.done (), { w with vars := w.vars.modify id fun _ ↦ .plain (some kind) v })
      else (.raised (Variable.kindMismatch kind (kept.getD kind)), w) := by
  unfold writePlain kindOf
  rw [hkind]
  cases kept with
  | none => exact (if_pos nofun).symm
  | some kept =>
    change (if kind = kept then _ else _ : Act Unit) w = _
    by_cases heq : kind = kept
    · rw [if_pos heq, if_pos fun other hother ↦ heq.trans (Option.some.inj hother), heq]
      rfl
    · rw [if_neg heq, if_neg fun h ↦ heq (h kept rfl)]
      rfl

/-- A write to a plain variable is done exactly if the variable takes the value. -/
theorem writePlace_plain (hplain : w.IsPlain place) (v : Value) :
    ((∃ w', writePlace place v w = (.done (), w')) ↔ w.Accepts place v) ∧
      ∀ w', writePlace place v w = (.done (), w') → Given [(place, v)] w w' := by
  obtain ⟨id, kept, old, rfl, hid⟩ := hplain
  have hgiven := Given.single hid v
  have hvariable := World.variableAt_of_get? hid
  have hwrite : writePlace (.bound id) v w = writePlain id kept v w := by
    unfold writePlace
    rw [world_bind, hvariable]
  rw [hwrite]
  unfold World.Accepts
  rw [hvariable]
  rcases hkind : v.kind? with _ | kind
  · unfold writePlain kindOf
    rw [hkind]
    exact ⟨⟨nofun, nofun⟩, nofun⟩
  · rw [hkind] at hgiven
    rw [writePlain_eq hkind]
    split
    · rename_i htakes
      refine ⟨⟨fun _ ↦ ⟨kind, kept, old, rfl, rfl, htakes⟩, fun _ ↦ ⟨_, rfl⟩⟩, fun w' h ↦ ?_⟩
      cases h
      exact hgiven
    · rename_i hrefuses
      refine ⟨⟨nofun, ?_⟩, nofun⟩
      rintro ⟨kind', kept', old', ⟨⟩, ⟨⟩, htakes⟩
      exact absurd htakes hrefuses

/-- Writes to different plain variables are all done exactly if each variable takes its value. -/
theorem writeAll_plain {writes : List (Place × Value)}
    (hplain : ∀ write ∈ writes, w.IsPlain write.1) (hdistinct : (writes.map Prod.fst).Nodup) :
    ((∃ w', writeAll writes w = (.done (), w')) ↔ ∀ write ∈ writes, w.Accepts write.1 write.2) ∧
      ∀ w', writeAll writes w = (.done (), w') → Given writes w w' := by
  induction writes generalizing w with
  | nil => exact ⟨⟨fun _ ↦ nofun, fun _ ↦ ⟨w, rfl⟩⟩, fun w' h ↦ by cases h; exact .nil w⟩
  | cons write others ih =>
    obtain ⟨place, v⟩ := write
    obtain ⟨hplace, hothers⟩ := List.nodup_cons.mp hdistinct
    obtain ⟨hdone, hgiven⟩ := writePlace_plain (hplain _ List.mem_cons_self) v
    -- What is written first does not matter to the other variables.
    have hrest : ∀ w₁, writePlace place v w = (.done (), w₁) →
        ((∃ w', writeAll others w₁ = (.done (), w')) ↔
          ∀ write ∈ others, w.Accepts write.1 write.2) ∧
        ∀ w', writeAll others w₁ = (.done (), w') → Given others w₁ w' := by
      intro w₁ h₁
      have hkept : ∀ write ∈ others, w₁.IsPlain write.1 ∧
          ∀ u, w₁.Accepts write.1 u ↔ w.Accepts write.1 u := by
        intro write hwrite
        refine (hgiven w₁ h₁).isPlain (hplain write (List.mem_cons_of_mem _ hwrite)) ?_
        rw [List.map_singleton, List.mem_singleton]
        intro heq
        exact hplace (heq ▸ List.mem_map_of_mem hwrite)
      obtain ⟨hiff, hall⟩ := ih (fun write hwrite ↦ (hkept write hwrite).1) hothers
      refine ⟨hiff.trans ?_, hall⟩
      exact forall₂_congr fun write hwrite ↦ (hkept write hwrite).2 write.2
    refine ⟨⟨?_, ?_⟩, ?_⟩
    · rintro ⟨w', h⟩
      obtain ⟨_, w₁, hfirst, h⟩ := done_of_bind h
      exact List.forall_mem_cons.mpr ⟨hdone.mp ⟨w₁, hfirst⟩, (hrest w₁ hfirst).1.mp ⟨w', h⟩⟩
    · intro haccepts
      obtain ⟨hfirst, haccepts⟩ := List.forall_mem_cons.mp haccepts
      obtain ⟨w₁, h₁⟩ := hdone.mpr hfirst
      obtain ⟨w', h'⟩ := (hrest w₁ h₁).1.mpr haccepts
      exact ⟨w', (bind_of_done h₁).trans h'⟩
    · intro w' h
      obtain ⟨_, w₁, hfirst, h⟩ := done_of_bind h
      exact (hgiven w₁ hfirst).cons ((hrest w₁ hfirst).2 w' h) hplace

theorem Fits.length_le {fixed rest : List Place} {values : List Value}
    (h : Fits fixed rest values) : fixed.length ≤ values.length := by
  unfold Fits at h
  split at h
  · exact Nat.le_of_eq h
  · exact h

theorem map_fst_writesOf {fixed rest : List Place} {values : List Value}
    (h : fixed.length ≤ values.length) :
    (writesOf fixed rest values).map Prod.fst = fixed ++ rest := by
  have hrest : (rest.map fun tail ↦ (tail, Value.list (values.drop fixed.length))).map Prod.fst =
      rest := by
    rw [List.map_map]
    exact List.map_id _
  rw [writesOf, List.map_append, List.map_fst_zip h, hrest]

/-- Values are distributed over different plain variables exactly if at most one of them is for the
rest, their number suits, and each variable takes what it gets. -/
theorem distribute_plain {fixed rest : List Place} (values : List Value)
    (hplain : ∀ place ∈ fixed ++ rest, w.IsPlain place) (hdistinct : (fixed ++ rest).Nodup) :
    ((∃ w', distribute fixed rest values w = (.done (), w')) ↔
      rest.length ≤ 1 ∧ Fits fixed rest values ∧
        ∀ write ∈ writesOf fixed rest values, w.Accepts write.1 write.2) ∧
    ∀ w', distribute fixed rest values w = (.done (), w') →
      Given (writesOf fixed rest values) w w' := by
  have hwrites : fixed.length ≤ values.length →
      ((∃ w', writeAll (writesOf fixed rest values) w = (.done (), w')) ↔
        ∀ write ∈ writesOf fixed rest values, w.Accepts write.1 write.2) ∧
      ∀ w', writeAll (writesOf fixed rest values) w = (.done (), w') →
        Given (writesOf fixed rest values) w w' := by
    intro hlength
    have hfirsts : (writesOf fixed rest values).map Prod.fst = fixed ++ rest :=
      map_fst_writesOf hlength
    refine writeAll_plain (fun write hwrite ↦ hplain _ ?_) (hfirsts ▸ hdistinct)
    exact hfirsts ▸ List.mem_map_of_mem hwrite
  match rest with
  | [] =>
    rw [distribute_nil]
    by_cases hlength : fixed.length = values.length
    · rw [if_neg (not_not.mpr hlength)]
      obtain ⟨hiff, hgiven⟩ := hwrites (Nat.le_of_eq hlength)
      refine ⟨hiff.trans ⟨fun h ↦ ⟨by simp, by simpa [Fits] using hlength, h⟩, fun h ↦ h.2.2⟩,
        hgiven⟩
    · rw [if_pos hlength]
      refine ⟨⟨fun hdone ↦ ?_, fun h ↦ absurd (by simpa [Fits] using h.2.1) hlength⟩,
        fun w' h ↦ ?_⟩
      · obtain ⟨w', h⟩ := hdone
        cases h
      · cases h
  | [tail] =>
    rw [distribute_singleton]
    by_cases hlength : values.length < fixed.length
    · rw [if_pos hlength]
      refine ⟨⟨fun hdone ↦ ?_, fun h ↦ ?_⟩, fun w' h ↦ ?_⟩
      · obtain ⟨w', h⟩ := hdone
        cases h
      · exact absurd hlength (Nat.not_lt.mpr (by simpa [Fits] using h.2.1))
      · cases h
    · rw [if_neg hlength]
      obtain ⟨hiff, hgiven⟩ := hwrites (Nat.le_of_not_lt hlength)
      refine ⟨hiff.trans ⟨fun h ↦ ⟨by simp, ?_, h⟩, fun h ↦ h.2.2⟩, hgiven⟩
      simpa [Fits] using hlength
  | first :: second :: others =>
    refine ⟨⟨fun hdone ↦ ?_, fun h ↦ ?_⟩, fun w' h ↦ ?_⟩
    · obtain ⟨w', h⟩ := hdone
      cases h
    · simp at h
    · cases h

end Act

/-! ## Reading back -/

namespace Eval

open World (Binds Given Spares)
open Act (Fits)
open Event (begun)

variable {ctx : Context} {w w' : World} {t : Target} {v : Value}

/-- A target leads to a plain variable with a value. -/
def Reads (ctx : Context) (w : World) (t : Target) (v : Value) : Prop :=
  ∃ id kept, Reaches ctx w t.reference.name t.reference.qualifier id ∧
    w.vars.get? id = some (.plain kept v)

theorem Reads.read (h : Reads ctx w t v) (go : Runner) :
    ∃ place, resolve go ctx t.reference.qualifier t.reference.name w = (.done (some place), w) ∧
      Act.readPlace place w = (.done v, w) := by
  obtain ⟨id, kept, hreaches, hid⟩ := h
  refine ⟨.bound id, hreaches.resolve_eq go, ?_⟩
  unfold Act.readPlace
  rw [World.variableAt_of_get? hid]
  rfl

theorem Reads.evalVariable_eq (h : Reads ctx w t v) (go : Runner) :
    evalVariable go ctx t.span false t.reference w = (.done [v], w) := by
  obtain ⟨place, hresolve, hread⟩ := h.read go
  unfold evalVariable
  rw [Act.bind_of_done hresolve]
  exact Act.bind_of_done hread

theorem Reads.splice_eq {items : List Value} (h : Reads ctx w t (.list items)) (go : Runner) :
    evalVariable go ctx t.span true t.reference w = (.done items, w) := by
  obtain ⟨place, hresolve, hread⟩ := h.read go
  unfold evalVariable
  rw [Act.bind_of_done hresolve]
  exact Act.bind_of_done hread

/-- The variables of targets, as expressions. -/
def variablesOf (splice : Bool) (targets : List Target) : List Code.Expr :=
  targets.map fun t ↦ .variable t.span splice t.reference

/-- The expressions that read the targets of an assignment: the fixed targets in order, and behind
them the targets for the rest, spliced. -/
def readBack (targets : List Target) : List Code.Expr :=
  variablesOf false (targets.filter (!·.rest)) ++ variablesOf true (targets.filter (·.rest))

theorem evalExprs_variablesOf {targets : List Target} {values others : List Value}
    {more : List Code.Expr} (h : List.Forall₂ (Reads ctx w) targets values) (go : Runner)
    (hmore : evalExprs go ctx more w = (.done others, w)) :
    evalExprs go ctx (variablesOf false targets ++ more) w = (.done (values ++ others), w) := by
  induction h with
  | nil => exact hmore
  | cons hreads _ ih =>
    rw [variablesOf, List.map_cons, List.cons_append, ← variablesOf, evalExprs, evalExpr,
      Act.bind_of_done (hreads.evalVariable_eq go), Act.bind_of_done ih]
    rfl

/-- At most one of the targets is for the rest of the values, and their number suits: each fixed
target takes one value, and what is left over needs a target for the rest. -/
def Suits (targets : List Target) (values : List Value) : Prop :=
  (targets.filter (·.rest)).length ≤ 1 ∧
    if (targets.filter (·.rest)).isEmpty then (targets.filter (!·.rest)).length = values.length
    else (targets.filter (!·.rest)).length ≤ values.length

/-- Fixed targets of which each leads to a variable with its value, and a target for the rest that
leads to one with the list of the values left over. -/
theorem evalExprs_readBack {targets : List Target} {values : List Value}
    (hsuits : Suits targets values)
    (hfixed : List.Forall₂ (Reads ctx w) (targets.filter (!·.rest))
      (values.take (targets.filter (!·.rest)).length))
    (hrest : ∀ t ∈ targets.filter (·.rest),
      Reads ctx w t (.list (values.drop (targets.filter (!·.rest)).length))) (go : Runner) :
    evalExprs go ctx (readBack targets) w = (.done values, w) := by
  have hleft : evalExprs go ctx (variablesOf true (targets.filter (·.rest))) w =
      (.done (values.drop (targets.filter (!·.rest)).length), w) := by
    obtain ⟨hmany, hlength⟩ := hsuits
    match hrests : targets.filter (·.rest) with
    | [] =>
      rw [hrests] at hlength
      rw [List.drop_of_length_le (Nat.le_of_eq hlength.symm), hrests]
      rfl
    | [t] =>
      have ht := hrest t (hrests ▸ List.mem_singleton_self t)
      rw [hrests, variablesOf, List.map_singleton, evalExprs, evalExpr,
        Act.bind_of_done (ht.splice_eq go)]
      change (Outcome.done (_ ++ []), w) = _
      rw [List.append_nil]
    | _ :: _ :: _ =>
      rw [hrests] at hmany
      simp at hmany
  have hall := evalExprs_variablesOf hfixed go hleft
  rwa [List.take_append_drop] at hall

/-! ## The whole form -/

variable {targets : List Target} {ds : List Destination} {values : List Value}

theorem reads_of_aims (h : List.Forall₂ (Aims ctx w) targets ds)
    (hlength : ds.length ≤ values.length)
    (hvars : ∀ id v, (.bound id, v) ∈ (ds.map (·.place)).zip values →
      w.vars.get? id = some (.plain v.kind? v)) :
    List.Forall₂ (Reads ctx w) targets (values.take targets.length) := by
  induction h generalizing values with
  | nil => exact .nil
  | cons haims _ ih =>
    cases values with
    | nil => exact absurd hlength (Nat.not_succ_le_zero _)
    | cons v values =>
      obtain ⟨-, id, hplace, hreaches⟩ := haims
      refine .cons ⟨id, v.kind?, hreaches, hvars id v ?_⟩
        (ih (Nat.le_of_succ_le_succ hlength) fun id v hmem ↦
          hvars id v (List.mem_cons_of_mem _ hmem))
      rw [List.map_cons, hplace]
      exact List.mem_cons_self

/-- What relates targets and destinations relates the fixed ones, and those for the rest. -/
theorem forall₂_placesOf {R : Target → Destination → Prop} (hR : ∀ t d, R t d → d.rest = t.rest)
    (h : List.Forall₂ R targets ds) :
    List.Forall₂ R (targets.filter (!·.rest)) (ds.filter (·.rest == false)) ∧
      List.Forall₂ R (targets.filter (·.rest)) (ds.filter (·.rest == true)) := by
  constructor
  · exact List.rel_filter (fun t d htd ↦ by simp [hR t d htd]) h
  · exact List.rel_filter (fun t d htd ↦ by simp [hR t d htd]) h

theorem suits_iff (h : List.Forall₂ (Found ctx w) targets ds) :
    Suits targets values ↔
      (placesOf ds true).length ≤ 1 ∧ Fits (placesOf ds false) (placesOf ds true) values := by
  obtain ⟨hfixed, hrest⟩ := forall₂_placesOf (fun _ _ ↦ Found.rest) h
  have hfixed' : (targets.filter (!·.rest)).length = (placesOf ds false).length :=
    hfixed.length_eq.trans (List.length_map _).symm
  have hrest' : (targets.filter (·.rest)).length = (placesOf ds true).length :=
    hrest.length_eq.trans (List.length_map _).symm
  have hempty : (targets.filter (·.rest)).isEmpty = (placesOf ds true).isEmpty := by
    rw [Bool.eq_iff_iff, List.isEmpty_iff_length_eq_zero, List.isEmpty_iff_length_eq_zero, hrest']
  unfold Suits Fits
  rw [hempty, hfixed', hrest']

theorem perm_placesOf (ds : List Destination) :
    (placesOf ds false ++ placesOf ds true).Perm (ds.map (·.place)) := by
  unfold placesOf
  rw [← List.map_append]
  refine List.Perm.map _ ?_
  have hpartition := List.filter_append_perm (fun d : Destination ↦ d.rest == false) ds
  simpa using hpartition

section

variable {setup : Setup} {fuel : Nat} {ctx : Context} {span : Span} {exprs : List Code.Expr}
  {w w₁ : World} {vs : List Value}

/-- Where the targets lead when all of them have been found. -/
theorem found_prepare (hscope : ctx.scope < w.scopes.size) (houter : ctx.outer < w.scopes.size)
    (hprepare : prepare (run setup fuel) ctx span exprs targets w = (.done (vs, ds), w₁))
    (hplain : ∀ d ∈ ds, w₁.IsPlain d.place) : List.Forall₂ (Found ctx w₁) targets ds := by
  have hgo := binds_run setup fuel
  obtain ⟨_, w₂, hbegin, h⟩ := done_of_bind hprepare
  obtain ⟨vs', w₃, hvalues, h⟩ := done_of_bind h
  obtain ⟨ds', w₄, htargets, h⟩ := done_of_bind h
  obtain ⟨⟨⟩, rfl⟩ := Act.eq_of_pure h
  have hsize : w.scopes.size ≤ w₃.scopes.size := by
    have h₂ : Binds .none w w₂ := (keeps_beginForm span).of_done hbegin
    have h₃ : Binds .none w₂ w₃ := (keeps_evalExprs (hgo.inContext ctx) exprs).of_done hvalues
    exact (h₂.trans h₃).size_le
  refine found_findTargets hgo (Nat.lt_of_lt_of_le hscope hsize) (Nat.lt_of_lt_of_le houter hsize)
    htargets fun d hd ↦ ?_
  obtain ⟨id, -, -, hplace, -⟩ := hplain d hd
  exact ⟨id, hplace⟩

theorem spares_prepare (hprepare : prepare (run setup fuel) ctx span exprs targets w =
    (.done (vs, ds), w₁)) : w.Spares w₁ := by
  have hgo := spares_run setup fuel
  have hkeeps : (prepare (run setup fuel) ctx span exprs targets).Keeps Spares :=
    .bind (spares_beginForm span) fun _ ↦ .bind (spares_evalExprs hgo ctx exprs) fun _ ↦
      .bind (spares_findTargets hgo ctx targets) fun _ ↦ .pure _
  exact hkeeps.of_done hprepare

theorem assignment_done_iff (hprepare : prepare (run setup fuel) ctx span exprs targets w =
    (.done (vs, ds), w₁)) (w' : World) :
    evalForm (run setup fuel) ctx (.assignment span exprs targets) w = (.done (), w') ↔
      ∃ w₂, distribute (placesOf ds false) (placesOf ds true) vs w₁ = (.done (), w₂) ∧
        w' = (bindCreated ctx.scope ds w₂).note (.assigned ctx.scope span targets) := by
  rw [evalForm_assignment, Act.bind_of_done hprepare]
  constructor
  · intro h
    obtain ⟨_, w₂, hdistribute, h⟩ := done_of_bind h
    cases h
    exact ⟨w₂, hdistribute, rfl⟩
  · rintro ⟨w₂, hdistribute, rfl⟩
    exact Act.bind_of_done hdistribute

theorem note_bindCreated (scope : ScopeId) (ds : List Destination) (event : Event) (w : World) :
    ∃ scopes journal, (bindCreated scope ds w).note event = { w with scopes, journal } := by
  obtain ⟨scopes, hdefined, -⟩ := World.foldl_define_eq scope (ds.filterMap (·.created)) w
  exact ⟨scopes, w.journal ++ [event], by unfold bindCreated; rw [hdefined]; rfl⟩

/-- Once the values have been given and the new variables bound, the targets read as the values. -/
theorem evalExprs_given {w₂ w' : World} (hsuits : Suits targets vs)
    (hlength : (placesOf ds false).length ≤ vs.length)
    (haims : List.Forall₂ (Aims ctx w') targets ds)
    (hgiven : Given (writesOf (placesOf ds false) (placesOf ds true) vs) w₁ w₂)
    (hvars : w'.vars = w₂.vars) (go : Runner) :
    evalExprs go ctx (readBack targets) w' = (.done vs, w') := by
  obtain ⟨hfixed, hrest⟩ := forall₂_placesOf (fun _ _ ↦ And.left) haims
  have hnumber : (targets.filter (!·.rest)).length = (placesOf ds false).length :=
    hfixed.length_eq.trans (List.length_map _).symm
  have hread : ∀ id v, (.bound id, v) ∈ writesOf (placesOf ds false) (placesOf ds true) vs →
      w'.vars.get? id = some (.plain v.kind? v) := by
    intro id v hmem
    rw [hvars]
    exact hgiven.given id v hmem
  refine evalExprs_readBack hsuits (reads_of_aims hfixed ?_ fun id v hmem ↦ ?_) (fun t ht ↦ ?_) go
  · rwa [← List.length_map (f := Destination.place)]
  · exact hread id v (List.mem_append_left _ hmem)
  · obtain ⟨d, hd, -, id, hplace, hreaches⟩ := exists_of_forall₂ hrest ht
    refine ⟨id, _, hreaches, hread id _ (List.mem_append_right _ ?_)⟩
    rw [hnumber]
    exact List.mem_map.mpr ⟨.bound id, List.mem_map.mpr ⟨d, hd, hplace⟩, rfl⟩

end

/-- Let the values of an assignment have been evaluated and its targets found: under different
names, each a plain variable of its own, be it bound already or new.  Then the form succeeds exactly
if the values suit the targets in number and each variable takes what it gets.  Once it has, whoever
reads the targets gets the values back and changes nothing by it.  Beyond the variables of the
targets nothing has been written, and before the writes no variable has changed unless a module was
loaded. -/
theorem assignment_destructures {setup : Setup} {fuel : Nat} {ctx : Context} {span : Span}
    {exprs : List Code.Expr} {targets : List Target} {w w₁ : World} {vs : List Value}
    {ds : List Destination} (hscope : ctx.scope < w.scopes.size)
    (houter : ctx.outer < w.scopes.size)
    (hprepare : prepare (run setup fuel) ctx span exprs targets w = (.done (vs, ds), w₁))
    (hnames : (targets.map (·.reference.name)).Nodup) (hplain : ∀ d ∈ ds, w₁.IsPlain d.place)
    (hdistinct : (ds.map (·.place)).Nodup) :
    ((∃ w', evalForm (run setup fuel) ctx (.assignment span exprs targets) w = (.done (), w')) ↔
      Suits targets vs ∧
        ∀ write ∈ writesOf (placesOf ds false) (placesOf ds true) vs, w₁.Accepts write.1 write.2) ∧
    ∀ w', evalForm (run setup fuel) ctx (.assignment span exprs targets) w = (.done (), w') →
      (∀ go, evalExprs go ctx (readBack targets) w' = (.done vs, w')) ∧
      (∀ id, .bound id ∉ ds.map (·.place) → w'.vars.get? id = w₁.vars.get? id) ∧
      w'.environment = w₁.environment ∧ w'.store = w₁.store ∧ w.Spares w₁ := by
  have hfound := found_prepare hscope houter hprepare hplain
  have hperm := perm_placesOf ds
  obtain ⟨hiff, hgiven⟩ := Act.distribute_plain vs (fun place hplace ↦ by
    obtain ⟨d, hd, rfl⟩ := List.mem_map.mp (hperm.mem_iff.mp hplace)
    exact hplain d hd) (hperm.nodup_iff.mpr hdistinct)
  refine ⟨?_, fun w' h ↦ ?_⟩
  · rw [suits_iff hfound, and_assoc, ← hiff]
    simp only [assignment_done_iff hprepare]
    exact ⟨fun ⟨_, w₂, h, _⟩ ↦ ⟨w₂, h⟩, fun ⟨w₂, h⟩ ↦ ⟨_, w₂, h, rfl⟩⟩
  · obtain ⟨w₂, hdone, rfl⟩ := (assignment_done_iff hprepare w').mp h
    obtain ⟨hmany, hfits, -⟩ := hiff.mp ⟨w₂, hdone⟩
    have hwritten := hgiven w₂ hdone
    have hbefore : Binds .none w w₁ :=
      (binds_prepare (binds_run setup fuel) ctx span exprs targets).of_done hprepare
    have hbound : Binds .none w₁ w₂ := (keeps_distribute _ _ vs).of_done hdone
    have haims : List.Forall₂ (Aims ctx ((bindCreated ctx.scope ds w₂).note
        (.assigned ctx.scope span targets))) targets ds := by
      have hfound₂ : List.Forall₂ (Found ctx w₂) targets ds :=
        hfound.imp fun _ _ h ↦ h.later hbound (Nat.lt_of_lt_of_le hscope hbefore.size_le)
          (Nat.lt_of_lt_of_le houter hbefore.size_le)
      have hscope₂ := Nat.lt_of_lt_of_le hscope (hbefore.trans hbound).size_le
      exact (aims_bindCreated hfound₂ hscope₂ hnames).imp fun _ _ h ↦ h.note _
    obtain ⟨scopes, journal, hlast⟩ :=
      note_bindCreated ctx.scope ds (.assigned ctx.scope span targets) w₂
    rw [hlast] at haims ⊢
    have hsuits : Suits targets vs := (suits_iff hfound).mpr ⟨hmany, hfits⟩
    refine ⟨evalExprs_given hsuits hfits.length_le haims hwritten rfl,
      fun id hid ↦ hwritten.others id fun hmem ↦ hid ?_, ?_, ?_, spares_prepare hprepare⟩
    · rwa [Act.map_fst_writesOf hfits.length_le, hperm.mem_iff] at hmem
    · rw [hwritten.outside]
    · rw [hwritten.outside]

/-- A state in which the global names x and l lead to a text and to a list of two texts. -/
def textAndList : World where
  vars := ⟨[.plain (some .string) (.text [0x61]),
    .plain (some .list) (.list [.text [0x32], .text [0x33]])]⟩
  scopes := ⟨[⟨[([0x78], 0), ([0x6c], 1)]⟩, {}]⟩

/-- The values 1 and $@l. -/
def splicedValues : List Code.Expr :=
  [.text [0x31], .variable ⟨11, 14⟩ true ⟨[0x6c], [], [0x6c]⟩]

/-- The targets x, @r and z. -/
def threeTargets : List Target :=
  [⟨⟨0, 1⟩, false, ⟨[0x78], [], [0x78]⟩⟩, ⟨⟨2, 4⟩, true, ⟨[0x72], [], [0x72]⟩⟩,
    ⟨⟨5, 6⟩, false, ⟨[0x7a], [], [0x7a]⟩⟩]

/-- The state in which the targets of `x @r z = 1 $@l` have been found. -/
def threeFound : World :=
  (prepare (run {} 1) topLevel ⟨0, 14⟩ splicedValues threeTargets textAndList).2

/-- With `x @r z = 1 $@l`, r and z get new variables, and x, z and the items of r are the values. -/
theorem assignment_destructures_splice :
    ∃ w', evalForm (run {} 1) topLevel (.assignment ⟨0, 14⟩ splicedValues threeTargets)
        textAndList = (.done (), w') ∧
      ∀ go, evalExprs go topLevel (readBack threeTargets) w' =
        (.done [.text [0x31], .text [0x32], .text [0x33]], w') := by
  have hprepare : prepare (run {} 1) topLevel ⟨0, 14⟩ splicedValues threeTargets textAndList =
      (.done ([.text [0x31], .text [0x32], .text [0x33]],
        [⟨.bound 0, false, none⟩, ⟨.bound 2, true, some ([0x72], 2)⟩,
          ⟨.bound 3, false, some ([0x7a], 3)⟩]), threeFound) := rfl
  have hplain : ∀ d ∈ ([⟨.bound 0, false, none⟩, ⟨.bound 2, true, some ([0x72], 2)⟩,
      ⟨.bound 3, false, some ([0x7a], 3)⟩] : List Destination), threeFound.IsPlain d.place := by
    simp only [List.forall_mem_cons]
    exact ⟨⟨0, _, _, rfl, rfl⟩, ⟨2, _, _, rfl, rfl⟩, ⟨3, _, _, rfl, rfl⟩, nofun⟩
  obtain ⟨hiff, hdone⟩ :=
    assignment_destructures (by decide) (by decide) hprepare (by decide) hplain (by decide)
  obtain ⟨w', h⟩ := hiff.mpr ⟨⟨by decide, by decide⟩, List.forall_mem_cons.mpr
    ⟨⟨.string, _, _, rfl, rfl, by simp⟩, List.forall_mem_cons.mpr
      ⟨⟨.string, _, _, rfl, rfl, by simp⟩, List.forall_mem_cons.mpr
        ⟨⟨.list, _, _, rfl, rfl, by simp⟩, nofun⟩⟩⟩⟩
  exact ⟨w', h, (hdone w' h).1⟩

end Eval

end Conduit
