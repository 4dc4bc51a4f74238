import Conduit.Proofs.Rules.Places

/-!
# Evaluation that Complies

From a state that obeys the rules, evaluating code that fits a known text leads to such states only,
and what it yields obeys the rules.  The argument follows the code of the evaluator.  A reference
leads to places that are ready, and the names of an assignment are bound only after every one of its
places has been written.
-/

namespace Conduit

open World (Handles Onward)
open Act (Complies Plain)

variable {T : Rules}

/-- The code of a text may carry each of the spans. -/
def Rules.Fit (T : Rules) (text : Bytes) (spans : List Span) : Prop := ∀ span ∈ spans, T.fits text span

namespace Rules.Fit

variable {text : Bytes} {spans others : List Span}

theorem of_subset (h : T.Fit text others) (hs : spans ⊆ others) : T.Fit text spans :=
  fun span hspan ↦ h span (hs hspan)

theorem left (h : T.Fit text (spans ++ others)) : T.Fit text spans :=
  h.of_subset (List.subset_append_left _ _)

theorem right (h : T.Fit text (spans ++ others)) : T.Fit text others :=
  h.of_subset (List.subset_append_right _ _)

theorem head {span : Span} (h : T.Fit text (span :: spans)) : T.fits text span :=
  h span List.mem_cons_self

theorem tail {span : Span} (h : T.Fit text (span :: spans)) : T.Fit text spans :=
  h.of_subset (List.subset_cons_self _ _)

end Rules.Fit

/-- Values of a list, each of which obeys the rules. -/
def Value.AllObey (T : Rules) (values : List Value) (w : World) : Prop :=
  ∀ v ∈ values, v.Obeys T w.journal

namespace Value.AllObey

variable {values others : List Value} {w w' : World}

theorem onward (h : AllObey T values w) (hw : Onward w w') : AllObey T values w' :=
  fun v hv ↦ hw.value (h v hv)

theorem singleton {v : Value} (h : v.Obeys T w.journal) : AllObey T [v] w := by
  intro u hu
  rw [List.mem_singleton] at hu
  exact hu ▸ h

theorem append (h : AllObey T values w) (h' : AllObey T others w) : AllObey T (values ++ others) w :=
  fun v hv ↦ (List.mem_append.mp hv).elim (h v) (h' v)

end Value.AllObey

namespace Eval

open Value (AllObey)

variable {go : Runner} {ctx : Context} {w : World}

/-- A runner complies if every request does, from whatever state that obeys the rules. -/
structure Runner.Complies (T : Rules) (go : Runner) : Prop where
  call : ∀ {w : World} {f : Fn} {arguments : List Value} (ctx : Context), w.Obeys T →
    (Value.fn f).Obeys T w.journal → AllObey T arguments w →
      (go (.call ctx f arguments)).Plain T w
  load : ∀ {w : World} (ctx : Context) (name : Bytes), w.Obeys T → (go (.load ctx name)).Plain T w

/-! ## References -/

theorem ready_lookup (hw : w.Obeys T) (scope : ScopeId) (name : Bytes) :
    ∀ place ∈ ((w.scope scope).lookup name).map Place.bound, w.Ready place := by
  intro place hplace
  obtain ⟨id, hid, rfl⟩ := Option.map_eq_some_iff.mp hplace
  exact hw.bound scope id (Scope.binds_of_lookup hid)

theorem ready_findPlain (hw : w.Obeys T) (ctx : Context) (name : Bytes) :
    ∀ place ∈ (findPlain ctx name w).map Place.bound, w.Ready place := by
  unfold findPlain
  split
  · rename_i hinner
    exact hinner ▸ ready_lookup hw ctx.scope name
  · split
    · rename_i houter
      exact houter ▸ ready_lookup hw ctx.outer name
    · exact ready_lookup hw World.builtins name

theorem ready_environmentPlace (name : Bytes) : w.Ready (environmentPlace name) := by
  unfold environmentPlace
  split
  · split <;> rfl
  · rfl

theorem complies_use (hgo : Runner.Complies T go) (hw : w.Obeys T) (ctx : Context) (name : Bytes) :
    (use go ctx name).Plain T w := by
  unfold use
  refine .worldBind ?_
  split
  · exact hgo.load ctx name hw
  · exact .pure hw trivial

/-- A reference leads to places that are ready only. -/
theorem complies_resolve (hgo : Runner.Complies T go) (hw : w.Obeys T) (ctx : Context)
    (qualifier name : Bytes) :
    (resolve go ctx qualifier name).Complies T w fun place w' ↦ ∀ p ∈ place, w'.Ready p := by
  unfold resolve
  refine .worldBind ?_
  iterate 3
    split
    · exact .pure hw (ready_lookup hw _ name)
  split
  · exact .pure hw (ready_findPlain hw ctx name)
  · split
    · refine .pure hw fun place hplace ↦ ?_
      cases hplace
      exact ready_environmentPlace name
    · split
      · split
        · refine .pure hw fun place hplace ↦ ?_
          cases hplace
          rfl
        · exact .raiseUnblamed hw rfl
      · refine (complies_use hgo hw ctx qualifier).bind fun _ w₁ hw₁ _ _ ↦ .worldBind (.pure hw₁ ?_)
        intro place hplace
        obtain ⟨id, hid, rfl⟩ := Option.map_eq_some_iff.mp hplace
        obtain ⟨scope, -, hlookup⟩ := Option.bind_eq_some_iff.mp hid
        exact hw₁.bound scope id (Scope.binds_of_lookup hlookup)

theorem complies_evalVariable (hgo : Runner.Complies T go) (hw : w.Obeys T)
    (htext : T.known w.journal ctx.text) {span : Span} (hspan : T.fits ctx.text span) (splice : Bool)
    (r : Reference) : (evalVariable go ctx span splice r).Complies T w (AllObey T) := by
  have hblames : ∀ {w' : World}, Onward w w' → T.blames w'.journal span :=
    fun honward ↦ T.blames_fits (honward.knows htext) hspan
  have hraise : ∀ {w' : World} message, w'.Obeys T → Onward w w' →
      (Act.raise (.blaming span message)).Complies T w' (AllObey T) :=
    fun message hw' honward ↦ .raise hw' fun other hother ↦ by
      cases hother
      exact hblames honward
  unfold evalVariable
  refine (complies_resolve hgo hw ctx _ _).bind fun place w₁ hw₁ h₁ hready ↦ ?_
  cases place with
  | none =>
    refine (Complies.note hw₁ _).bind fun _ w₂ hw₂ h₂ _ ↦ ?_
    exact hraise _ hw₂ (h₁.trans h₂)
  | some place =>
    refine (complies_readPlace hw₁ (hready place rfl)).bind fun v w₂ hw₂ h₂ hv ↦ ?_
    split
    · split
      · exact .pure hw₂ (Value.obeys_list.mp hv)
      · exact .haltAbsent hw₂ hv.absent
      · exact hraise _ hw₂ (h₁.trans h₂)
    · exact .pure hw₂ (.singleton hv)

/-! ## Expressions -/

/-- A closure is made from code that fits the text it stands in. -/
theorem complies_makeClosure (hw : w.Obeys T) (htext : T.known w.journal ctx.text)
    (parameters : List Bytes) {body : Code.Block} (hbody : T.Fit ctx.text body.spans) :
    (makeClosure ctx parameters body).Complies T w fun c w' ↦ c.Obeys T w'.journal := by
  have hsnapshot : ∀ id,
      (Scope.merge (w.scope ctx.outer) (w.scope ctx.scope)).Binds id → w.Ready (.bound id) :=
    fun id hid ↦ (Scope.binds_merge hid).elim (hw.bound ctx.outer id) (hw.bound ctx.scope id)
  refine ⟨⟨hw.toLawful.newScope hsnapshot, hw.here⟩, .of_vars List.prefix_rfl rfl, ?_⟩
  exact ⟨htext, hbody⟩

mutual

theorem complies_evalExpr (hgo : Runner.Complies T go) : ∀ {w : World} {e : Code.Expr}, w.Obeys T →
    T.known w.journal ctx.text → T.Fit ctx.text e.spans →
      (evalExpr go ctx e).Complies T w (AllObey T)
  | w, .text content, hw, _, _ => by
    unfold evalExpr
    exact .pure hw (.singleton (Value.obeys_text content))
  | w, .variable span splice r, hw, htext, he => by
    unfold evalExpr
    exact complies_evalVariable hgo hw htext (he span List.mem_cons_self) splice r
  | w, .list items, hw, htext, he => by
    unfold evalExpr
    refine (complies_evalExprs hgo hw htext he).bind fun values w' hw' _ hvalues ↦ ?_
    exact .pure hw' (.singleton (Value.obeys_list.mpr hvalues))
  | w, .lambda parameters body, hw, htext, he => by
    unfold evalExpr
    refine (complies_makeClosure hw htext parameters he).bind fun c w' hw' _ hc ↦ ?_
    refine .pure hw' (.singleton (Value.obeys_fn fun c' heq ↦ ?_))
    cases heq
    exact hc

theorem complies_evalExprs (hgo : Runner.Complies T go) : ∀ {w : World} {es : List Code.Expr},
    w.Obeys T → T.known w.journal ctx.text → T.Fit ctx.text (Code.exprsSpans es) →
      (evalExprs go ctx es).Complies T w (AllObey T)
  | w, [], hw, _, _ => by
    unfold evalExprs
    exact .pure hw nofun
  | w, e :: rest, hw, htext, he => by
    unfold evalExprs
    refine (complies_evalExpr hgo hw htext he.left).bind fun values w₁ hw₁ h₁ hvalues ↦ ?_
    refine (complies_evalExprs hgo hw₁ (h₁.knows htext) he.right).bind
      fun others w₂ hw₂ h₂ hothers ↦ ?_
    exact .pure hw₂ ((hvalues.onward h₂).append hothers)

end

theorem complies_evalHead (hgo : Runner.Complies T go) (hw : w.Obeys T)
    (htext : T.known w.journal ctx.text) {head : Code.Head} (hhead : T.Fit ctx.text head.spans) :
    (evalHead go ctx head).Complies T w (AllObey T) := by
  cases head with
  | named r =>
    refine (complies_resolve hgo hw ctx _ _).bind fun place w₁ hw₁ _ hready ↦ ?_
    cases place with
    | some place =>
      refine (complies_readPlace hw₁ (hready place rfl)).bind fun v w₂ hw₂ _ hv ↦ ?_
      exact .pure hw₂ (.singleton hv)
    | none =>
      dsimp only
      split
      · exact .pure hw₁ (.singleton (Value.obeys_fn nofun))
      · exact .fail hw₁ _
  | computed e => exact complies_evalExpr hgo hw htext hhead

theorem complies_soleFunction {values : List Value} (hw : w.Obeys T) (hvalues : AllObey T values w) :
    (soleFunction values).Complies T w fun f w' ↦ (Value.fn f).Obeys T w'.journal := by
  unfold soleFunction
  split
  · exact .pure hw (hvalues _ List.mem_cons_self)
  · exact .haltAbsent hw (hvalues _ List.mem_cons_self).absent
  · exact .fail hw _

/-! ## Forms -/

theorem complies_beginForm (hw : w.Obeys T) {span : Span} (hspan : T.blames w.journal span) :
    (beginForm span).Plain T w := by
  have hmoved : { w with here := span }.Obeys T := .move hw.toLawful hspan
  exact ⟨hmoved.note _, ⟨List.prefix_append _ _, fun id x hx ↦ ⟨x, hx, .refl x⟩⟩, trivial⟩

theorem complies_redirect (hgo : Runner.Complies T go) (hw : w.Obeys T)
    (htext : T.known w.journal ctx.text) {r : Code.Redirection} (hr : T.Fit ctx.text r.spans) :
    (redirect go ctx r).Complies T w fun ctx' _ ↦ ctx'.text = ctx.text := by
  obtain ⟨span, destination, mode, target⟩ := r
  have hblames : ∀ {w' : World}, Onward w w' → T.blames w'.journal span :=
    fun honward ↦ T.blames_fits (honward.knows htext) hr.head
  have hpath : ∀ {w' : World} values, w'.Obeys T → Onward w w' →
      (redirectionPath span values).Plain T w' := by
    intro w' values hw' honward
    unfold redirectionPath
    split
    · exact .ofExcept hw' (.toText _ _)
    · refine .raise hw' fun other hother ↦ ?_
      cases hother
      exact hblames honward
  unfold redirect
  refine (complies_evalExpr hgo hw htext hr.tail).bind fun values w₁ hw₁ h₁ _ ↦ ?_
  refine (hpath values hw₁ h₁).bind fun path w₂ hw₂ _ _ ↦ ?_
  refine (Complies.quiet hw₂ (quiet_openFile mode path)).bind fun stream w₃ hw₃ _ _ ↦ ?_
  refine (Complies.quiet hw₃ (.change fun w ↦ .newEndpoint w _)).bind fun e w₄ hw₄ _ _ ↦ ?_
  refine .quietly hw₄ (quiet_setEndpoint ctx destination (some e)) fun ctx' w' h ↦ ?_
  cases h
  rfl

theorem complies_withRedirections (hgo : Runner.Complies T go) {act : Context → Act Unit}
    {redirections : List Code.Redirection} (hw : w.Obeys T)
    (hact : ∀ ctx w', w'.Obeys T → Onward w w' → (act ctx).Plain T w')
    (htext : T.known w.journal ctx.text)
    (hr : T.Fit ctx.text (Code.redirectionsSpans redirections)) :
    (withRedirections go ctx act redirections).Plain T w := by
  induction redirections generalizing ctx w with
  | nil => exact (hact ctx w hw (.refl w)).ensuringHandles fun w' ↦ ctx.handles_drop w'
  | cons r rest ih =>
    have hfirst := complies_redirect hgo hw htext hr.left
    refine (hfirst.orElseChange fun w' ↦ ctx.handles_drop w').bind fun ctx' w₁ hw₁ h₁ hsame ↦ ?_
    refine ih hw₁ (fun ctx w' hw' h' ↦ hact ctx w' hw' (h₁.trans h')) ?_ ?_
    · rw [hsame]
      exact h₁.knows htext
    · rw [hsame]
      exact hr.right

theorem complies_command (hgo : Runner.Complies T go) (hw : w.Obeys T)
    (htext : T.known w.journal ctx.text) {span : Span} {head : Code.Head}
    {arguments : List Code.Expr} {redirections : List Code.Redirection}
    (hform : T.Fit ctx.text (Code.Form.command span head arguments redirections).spans) :
    (evalForm go ctx (.command span head arguments redirections)).Plain T w := by
  obtain ⟨hspan, ⟨hhead, harguments⟩, hredirections⟩ :
      T.fits ctx.text span ∧
        (T.Fit ctx.text head.spans ∧ T.Fit ctx.text (Code.exprsSpans arguments)) ∧
          T.Fit ctx.text (Code.redirectionsSpans redirections) :=
    ⟨hform.head, ⟨hform.tail.left.left, hform.tail.left.right⟩, hform.tail.right⟩
  unfold evalForm
  refine (complies_beginForm hw (T.blames_fits htext hspan)).bind fun _ w₁ hw₁ h₁ _ ↦ ?_
  refine (complies_evalHead hgo hw₁ (h₁.knows htext) hhead).bind fun values w₂ hw₂ h₂ hvalues ↦ ?_
  refine (complies_soleFunction hw₂ hvalues).bind fun f w₃ hw₃ h₃ hf ↦ ?_
  have hknown : T.known w₃.journal ctx.text := ((h₁.trans h₂).trans h₃).knows htext
  refine (complies_evalExprs hgo hw₃ hknown harguments).bind fun given w₄ hw₄ h₄ hgiven ↦ ?_
  have hcall : ∀ ctx w', w'.Obeys T → Onward w₄ w' → (go (.call ctx f given)).Plain T w' :=
    fun ctx w' hw' h' ↦ hgo.call ctx hw' (h'.value (h₄.value hf)) (hgiven.onward h')
  split
  · exact hcall ctx w₄ hw₄ (.refl w₄)
  · have hfork : (ctx.fork (utf8 "redir")).Complies T w₄ fun fork _ ↦ fork.text = ctx.text := by
      refine .quietly hw₄ (quiet_fork ctx (utf8 "redir")) fun fork w' h ↦ ?_
      cases h
      rfl
    refine hfork.bind fun fork w₅ hw₅ h₅ hsame ↦ ?_
    refine complies_withRedirections hgo hw₅
      (fun ctx w' hw' h' ↦ hcall ctx w' hw' (h₅.trans h')) ?_ ?_
    · rw [hsame]
      exact (h₄.trans h₅).knows hknown
    · rw [hsame]
      exact hredirections

/-! ## Assignments -/

/-- Where a target leads exists, and is the new variable if there is one. -/
theorem complies_findTarget (hgo : Runner.Complies T go) (hw : w.Obeys T)
    (htext : T.known w.journal ctx.text) {t : Target} (ht : T.fits ctx.text t.span) :
    (findTarget go ctx t).Complies T w fun d w' ↦
      w'.Located d.place ∧ ∀ entry ∈ d.created, d.place = .bound entry.2 := by
  unfold findTarget
  refine (complies_resolve hgo hw ctx _ _).bind fun place w₁ hw₁ h₁ hready ↦ ?_
  cases place with
  | some place => exact .pure hw₁ ⟨(hready place rfl).located, nofun⟩
  | none =>
    dsimp only
    split
    · have hnew : (Act.change fun w ↦ w.newVariable (.plain none .absent)).Complies T w₁
          fun id w' ↦ w'.Located (.bound id) := by
        refine ⟨⟨hw₁.toLawful.newVariable rfl, hw₁.here⟩, .newVariable w₁ _, ?_⟩
        exact ⟨_, Table.get?_push_size _ _⟩
      refine hnew.bind fun id w₂ hw₂ _ hid ↦ .pure hw₂ ⟨hid, fun entry hentry ↦ ?_⟩
      cases hentry
      rfl
    · refine .raise hw₁ fun span hspan ↦ ?_
      cases hspan
      exact T.blames_fits (h₁.knows htext) ht

theorem complies_findTargets (hgo : Runner.Complies T go) (hw : w.Obeys T)
    (htext : T.known w.journal ctx.text) {targets : List Target}
    (ht : T.Fit ctx.text (targets.map Target.span)) :
    (findTargets go ctx targets).Complies T w fun ds w' ↦
      ∀ d ∈ ds, w'.Located d.place ∧ ∀ entry ∈ d.created, d.place = .bound entry.2 := by
  induction targets generalizing w with
  | nil => exact .pure hw nofun
  | cons t rest ih =>
    unfold findTargets
    refine (complies_findTarget hgo hw htext ht.head).bind fun d w₁ hw₁ h₁ hd ↦ ?_
    refine (ih hw₁ (h₁.knows htext) ht.tail).bind fun ds w₂ hw₂ h₂ hds ↦
      .pure hw₂ fun d' hd' ↦ ?_
    rcases List.mem_cons.mp hd' with rfl | hd'
    · exact ⟨h₂.located hd.1, hd.2⟩
    · exact hds d' hd'

theorem mem_placesOf {ds : List Destination} {rest : Bool} {place : Place} :
    place ∈ placesOf ds rest ↔ ∃ d ∈ ds, d.rest = rest ∧ d.place = place := by
  simp [placesOf, and_assoc]

/-- Names are bound to variables that hold values. -/
theorem obeys_foldl_define (scope : ScopeId) {entries : List (Bytes × VariableId)}
    (hw : w.Obeys T) (hready : ∀ entry ∈ entries, w.Ready (.bound entry.2)) :
    (entries.foldl (fun w (name, id) ↦ w.define scope name id) w).Obeys T ∧
      Onward w (entries.foldl (fun w (name, id) ↦ w.define scope name id) w) := by
  induction entries generalizing w with
  | nil => exact ⟨hw, .refl w⟩
  | cons entry rest ih =>
    have hdefine : (w.define scope entry.1 entry.2).Obeys T :=
      ⟨hw.toLawful.define (hready entry List.mem_cons_self) scope entry.1, hw.here⟩
    have honward : Onward w (w.define scope entry.1 entry.2) := .of_vars List.prefix_rfl rfl
    obtain ⟨hobeys, honward'⟩ := ih hdefine fun other hother ↦
      honward.ready (hready other (List.mem_cons_of_mem _ hother))
    exact ⟨hobeys, honward.trans honward'⟩

/-- Names are bound to variables that have been written. -/
theorem complies_bindCreated (hw : w.Obeys T) (scope : ScopeId) {ds : List Destination}
    (hds : ∀ d ∈ ds, w.Ready d.place ∧ ∀ entry ∈ d.created, d.place = .bound entry.2) :
    (Act.modify (bindCreated scope ds)).Plain T w := by
  have hentries : ∀ entry ∈ ds.filterMap (·.created), w.Ready (.bound entry.2) := by
    intro entry hentry
    obtain ⟨d, hd, hcreated⟩ := List.mem_filterMap.mp hentry
    obtain ⟨hready, hplace⟩ := hds d hd
    rwa [hplace entry hcreated] at hready
  obtain ⟨hobeys, honward⟩ := obeys_foldl_define scope hw hentries
  exact ⟨hobeys, honward, trivial⟩

theorem complies_assignment (hgo : Runner.Complies T go) (hw : w.Obeys T)
    (htext : T.known w.journal ctx.text) {span : Span} {values : List Code.Expr}
    {targets : List Target}
    (hform : T.Fit ctx.text (Code.Form.assignment span values targets).spans) :
    (evalForm go ctx (.assignment span values targets)).Plain T w := by
  obtain ⟨hspan, hvalues, htargets⟩ :
      T.fits ctx.text span ∧ T.Fit ctx.text (Code.exprsSpans values) ∧
        T.Fit ctx.text (targets.map Target.span) :=
    ⟨hform.head, hform.tail.left, hform.tail.right⟩
  unfold evalForm
  refine (complies_beginForm hw (T.blames_fits htext hspan)).bind fun _ w₁ hw₁ h₁ _ ↦ ?_
  refine (complies_evalExprs hgo hw₁ (h₁.knows htext) hvalues).bind fun given w₂ hw₂ h₂ hgiven ↦ ?_
  refine (complies_findTargets hgo hw₂ ((h₁.trans h₂).knows htext) htargets).bind
    fun ds w₃ hw₃ h₃ hds ↦ ?_
  have hplaces : ∀ rest, ∀ place ∈ placesOf ds rest, w₃.Located place := by
    intro rest place hplace
    obtain ⟨d, hd, -, rfl⟩ := mem_placesOf.mp hplace
    exact (hds d hd).1
  refine (complies_distribute hw₃ (hplaces false) (hplaces true) (hgiven.onward h₃)).bind
    fun _ w₄ hw₄ h₄ ⟨hfixed, hrest⟩ ↦ ?_
  have hwritten : ∀ d ∈ ds, w₄.Ready d.place ∧ ∀ entry ∈ d.created, d.place = .bound entry.2 := by
    refine fun d hd ↦ ⟨?_, (hds d hd).2⟩
    rcases hd' : d.rest with _ | _
    · exact hfixed _ (mem_placesOf.mpr ⟨d, hd, hd', rfl⟩)
    · exact hrest _ (mem_placesOf.mpr ⟨d, hd, hd', rfl⟩)
  refine (complies_bindCreated hw₄ ctx.scope hwritten).bind fun _ w₅ hw₅ _ _ ↦ ?_
  exact (Complies.note hw₅ _).plain

theorem complies_evalForm (hgo : Runner.Complies T go) (hw : w.Obeys T)
    (htext : T.known w.journal ctx.text) {form : Code.Form} (hform : T.Fit ctx.text form.spans) :
    (evalForm go ctx form).Plain T w := by
  cases form with
  | command span head arguments redirections => exact complies_command hgo hw htext hform
  | assignment span values targets => exact complies_assignment hgo hw htext hform

end Eval

end Conduit
