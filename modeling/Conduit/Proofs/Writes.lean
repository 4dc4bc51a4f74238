import Conduit.Proofs.Bindings

/-!
# Writes to Places

A write that is accepted changes one cell: a variable, an entry of the environment or an entry of
the store.  A write that is not accepted changes nothing, whatever the reason.  From this follows
what a list of writes has done: the cells that none of them is about are as before, and each of the
others holds what the last write to it has given it.
-/

namespace Conduit

/-! ## Cells -/

/-- A part of the state that a write can change. -/
inductive Cell where
  | var (id : VariableId)
  | entry (name : Bytes)
  | shared (name : Bytes)
  deriving DecidableEq, Repr

/-- A variable, apart from what a plain one has been given. -/
def Variable.role : Variable → Option Variable
  | .plain _ _ => none
  | x => some x

namespace World

/-- The cell that a write to a place changes if it is accepted. -/
def cell? (w : World) (place : Place) : Option Cell :=
  match w.variableAt place with
  | .plain _ _ => match place with
    | .bound id => some (.var id)
    | _ => none
  | .readOnly _ => none
  | .env name => some (.entry (Bytes.untilZero name))
  | .paths => some (.entry (utf8 "PATH"))
  | .shared name => some (.shared name)

/-- Two states have the same in a cell. -/
def SameIn (w w' : World) : Cell → Prop
  | .var id => w'.vars.get? id = w.vars.get? id
  | .entry name => w'.environment.entries.lookup name = w.environment.entries.lookup name
  | .shared name => w'.store.map (·.lookup name) = w.store.map (·.lookup name)

/-- The cell of a place has what a value gives it.  Text ends at its first zero byte in the
environment, and without a store there is nothing to hold a shared variable. -/
def Holds (w : World) (place : Place) (v : Value) : Prop :=
  match w.variableAt place with
  | .plain _ _ => ∀ id x, place = .bound id → w.vars.get? id = some x → x = .plain v.kind? v
  | .readOnly _ => False
  | .env name => ∃ content, v = .text content ∧
      w.environment.entries.lookup (Bytes.untilZero name) = some (Bytes.untilZero content)
  | .paths => ∃ content, Variable.pathsText v = .ok content ∧
      w.environment.entries.lookup (utf8 "PATH") = some (Bytes.untilZero content)
  | .shared name => ∃ content, v = .text content ∧
      ∀ entries, w.store = some entries → entries.lookup name = some content

variable {w w' w'' : World} {place : Place} {v : Value}

theorem SameIn.refl (w : World) (cell : Cell) : w.SameIn w cell := by
  cases cell <;> rfl

theorem SameIn.trans {cell : Cell} (h : w.SameIn w' cell) (h' : w'.SameIn w'' cell) :
    w.SameIn w'' cell := by
  cases cell <;> exact Eq.trans h' h

theorem variableAt_environment (w : World) (environment : Host.Environment) (place : Place) :
    { w with environment }.variableAt place = w.variableAt place := by
  cases place <;> rfl

theorem cell?_congr (h : (w'.variableAt place).role = (w.variableAt place).role) :
    w'.cell? place = w.cell? place := by
  unfold cell?
  cases hx : w.variableAt place <;> cases hx' : w'.variableAt place <;> rw [hx, hx'] at h <;> cases h <;>
    rfl

/-- What a place holds it keeps as long as its cell is the same. -/
theorem Holds.keep (h : w.Holds place v)
    (hrole : (w'.variableAt place).role = (w.variableAt place).role)
    (hsame : ∀ cell, w.cell? place = some cell → w.SameIn w' cell) : w'.Holds place v := by
  unfold Holds at h ⊢
  unfold cell? at hsame
  cases hx : w.variableAt place <;> cases hx' : w'.variableAt place <;> rw [hx, hx'] at hrole <;>
    rw [hx] at h hsame <;> cases hrole
  case plain =>
    rintro id x rfl hget
    have hvars : w'.vars.get? id = w.vars.get? id := hsame _ rfl
    exact h id x rfl (hvars.symm.trans hget)
  case readOnly => exact h
  case env =>
    obtain ⟨content, hv, hcontent⟩ := h
    exact ⟨content, hv, Eq.trans (hsame _ rfl) hcontent⟩
  case shared name =>
    obtain ⟨content, hv, hcontent⟩ := h
    refine ⟨content, hv, fun entries hentries ↦ ?_⟩
    have hmap : w'.store.map (·.lookup name) = w.store.map (·.lookup name) := hsame _ rfl
    rw [hentries] at hmap
    obtain ⟨before, hbefore, hlookup⟩ := Option.map_eq_some_iff.mp hmap.symm
    exact hlookup.symm.trans (hcontent before hbefore)
  case paths =>
    obtain ⟨content, hv, hcontent⟩ := h
    exact ⟨content, hv, Eq.trans (hsame _ rfl) hcontent⟩

/-! ## Writes that have been made -/

/-- From one state to the other, a list of writes has been made in order, and nothing else. -/
structure Stored (writes : List (Place × Value)) (w w' : World) : Prop where
  outside : w' = { w with vars := w'.vars, environment := w'.environment, store := w'.store }
  role : ∀ place, (w'.variableAt place).role = (w.variableAt place).role
  same : ∀ cell, (∀ write ∈ writes, w.cell? write.1 ≠ some cell) → w.SameIn w' cell
  environment : (∀ write ∈ writes, ∀ name, w.cell? write.1 ≠ some (.entry name)) →
    w'.environment = w.environment
  store : (∀ write ∈ writes, ∀ name, w.cell? write.1 ≠ some (.shared name)) → w'.store = w.store
  holds : ∀ before place v after, writes = before ++ (place, v) :: after →
    (∀ write ∈ after, w.cell? write.1 ≠ w.cell? place) → w'.Holds place v

namespace Stored

theorem nil (w : World) : Stored [] w w where
  outside := rfl
  role _ := rfl
  same cell _ := .refl w cell
  environment _ := rfl
  store _ := rfl
  holds before place v after h := by simp at h

theorem append {writes writes' : List (Place × Value)} (h : Stored writes w w')
    (h' : Stored writes' w' w'') : Stored (writes ++ writes') w w'' where
  outside := by rw [h'.outside, h.outside]
  role place := (h'.role place).trans (h.role place)
  same cell hcell := by
    apply (h.same cell fun write hwrite ↦ hcell write (by simp [hwrite])).trans
    apply h'.same cell
    intro write hwrite
    rw [cell?_congr (h.role write.1)]
    exact hcell write (by simp [hwrite])
  environment hentry := by
    apply (h'.environment fun write hwrite name ↦ ?_).trans
      (h.environment fun write hwrite ↦ hentry write (by simp [hwrite]))
    rw [cell?_congr (h.role write.1)]
    exact hentry write (by simp [hwrite]) name
  store hshared := by
    apply (h'.store fun write hwrite name ↦ ?_).trans
      (h.store fun write hwrite ↦ hshared write (by simp [hwrite]))
    rw [cell?_congr (h.role write.1)]
    exact hshared write (by simp [hwrite]) name
  holds before place v after hwrites hafter := by
    rcases List.append_eq_append_iff.mp hwrites with ⟨between, rfl, hafter'⟩ | ⟨between, hbefore, h₂⟩
    · apply h'.holds between place v after hafter'
      intro write hwrite
      rw [cell?_congr (h.role write.1), cell?_congr (h.role place)]
      exact hafter write hwrite
    · cases between with
      | nil =>
        apply h'.holds [] place v after h₂.symm
        intro write hwrite
        rw [cell?_congr (h.role write.1), cell?_congr (h.role place)]
        exact hafter write hwrite
      | cons write between =>
        -- The write is among the first ones, and no later one is about its cell.
        obtain ⟨rfl, rfl⟩ := List.cons.inj h₂
        have hholds := h.holds before place v between hbefore fun write hwrite ↦
          hafter write (by simp [hwrite])
        apply hholds.keep (h'.role place)
        intro cell hcell
        apply h'.same cell
        intro write hwrite
        rw [cell?_congr (h.role write.1), ← hcell, cell?_congr (h.role place)]
        exact hafter write (by simp [hwrite])

/-- One write that changes one cell. -/
theorem single {cell : Cell} (hcell : w.cell? place = some cell)
    (outside : w' = { w with vars := w'.vars, environment := w'.environment, store := w'.store })
    (role : ∀ place, (w'.variableAt place).role = (w.variableAt place).role)
    (same : ∀ other, other ≠ cell → w.SameIn w' other)
    (environment : (∀ name, cell ≠ .entry name) → w'.environment = w.environment)
    (store : (∀ name, cell ≠ .shared name) → w'.store = w.store)
    (holds : w'.Holds place v) : Stored [(place, v)] w w' where
  outside := outside
  role := role
  same other hother := by
    apply same
    rintro rfl
    exact hother (place, v) (by simp) hcell
  environment hentry := by
    apply environment
    rintro name rfl
    exact hentry (place, v) (by simp) name hcell
  store hshared := by
    apply store
    rintro name rfl
    exact hshared (place, v) (by simp) name hcell
  holds before place' v' after hwrites _ := by
    cases before with
    | nil =>
      cases hwrites
      exact holds
    | cons write before =>
      have hnil : ([] : List (Place × Value)) = before ++ (place', v') :: after :=
        (List.cons.inj hwrites).2
      simp at hnil

/-- A plain variable is given a value. -/
theorem plain {id : VariableId} {kept : Option Kind} {old : Value}
    (hx : w.variableAt (.bound id) = .plain kept old) (v : Value) :
    Stored [(.bound id, v)] w { w with vars := w.vars.modify id fun _ ↦ .plain v.kind? v } := by
  have hget : ∀ other, (w.vars.modify id fun _ ↦ .plain v.kind? v).get? other =
      if id = other then (w.vars.get? other).map fun _ ↦ .plain v.kind? v else w.vars.get? other :=
    fun other ↦ Table.get?_modify w.vars id other _
  have hvariable : ∃ kept old, ({ w with vars := w.vars.modify id fun _ ↦ .plain v.kind? v } :
      World).variableAt (.bound id) = .plain kept old := by
    unfold variableAt at hx ⊢
    rcases hid : w.vars.get? id with _ | x
    · exact ⟨none, .absent, by simp only [hget, hid]; rfl⟩
    · exact ⟨v.kind?, v, by simp only [hget, hid]; simp⟩
  obtain ⟨kept', old', hx'⟩ := hvariable
  have hcell : w.cell? (.bound id) = some (.var id) := by
    unfold cell?
    rw [hx]
  apply single hcell rfl
  · intro place
    by_cases hplace : place = .bound id
    · rw [hplace, hx, hx']
      rfl
    · cases place with
      | bound other =>
        have hother : id ≠ other := fun heq ↦ hplace (heq ▸ rfl)
        simp only [variableAt, hget, if_neg hother]
      | env name => rfl
      | command name => rfl
      | shared name => rfl
  · intro other hother
    cases other with
    | var other =>
      have hne : id ≠ other := fun heq ↦ hother (congrArg Cell.var heq.symm)
      exact (hget other).trans (if_neg hne)
    | entry name => rfl
    | shared name => rfl
  · exact fun _ ↦ rfl
  · exact fun _ ↦ rfl
  · unfold Holds
    rw [hx']
    rintro other x ⟨rfl⟩ hother
    change (w.vars.modify id _).get? id = some x at hother
    rw [hget, if_pos rfl] at hother
    obtain ⟨-, -, hx⟩ := Option.map_eq_some_iff.mp hother
    exact hx.symm

/-- A name of the environment is set. -/
theorem entry {name value : Bytes} {environment : Host.Environment}
    (hcell : w.cell? place = some (.entry (Bytes.untilZero name)))
    (hset : w.environment.set? name value = some environment)
    (hholds : environment.entries.lookup (Bytes.untilZero name) = some (Bytes.untilZero value) →
      { w with environment }.Holds place v) : Stored [(place, v)] w { w with environment } := by
  have hlookup : ∀ other, environment.entries.lookup other =
      if other = Bytes.untilZero name then some (Bytes.untilZero value)
      else w.environment.entries.lookup other := by
    intro other
    unfold Host.Environment.set? at hset
    dsimp only at hset
    split at hset
    · cases hset
    · cases hset
      exact lookup_put (Host.Environment.insert _ _) rfl (fun _ _ ↦ rfl) _ other
  apply single hcell rfl
  · exact fun place ↦ congrArg Variable.role (variableAt_environment w environment place)
  · intro other hother
    cases other with
    | var id => rfl
    | entry other =>
      have hne : other ≠ Bytes.untilZero name := fun heq ↦ hother (congrArg Cell.entry heq)
      exact (hlookup other).trans (if_neg hne)
    | shared name => rfl
  · exact fun hentry ↦ absurd rfl (hentry _)
  · exact fun _ ↦ rfl
  · exact hholds ((hlookup _).trans (if_pos rfl))

/-- A shared variable is given a text. -/
theorem share {name content : Bytes} (hx : w.variableAt place = .shared name) :
    Stored [(place, .text content)] w
      { w with store := w.store.map (putShared name content) } := by
  have hlookup : ∀ entries other, (putShared name content entries).lookup other =
      if other = name then some content else entries.lookup other :=
    lookup_put (putShared name content) rfl fun _ _ ↦ rfl
  have hvariable : ∀ place : Place,
      { w with store := w.store.map (putShared name content) }.variableAt place =
        w.variableAt place := by
    intro place
    cases place <;> rfl
  have hcell : w.cell? place = some (.shared name) := by
    unfold cell?
    rw [hx]
  apply single hcell rfl
  · exact fun place ↦ congrArg Variable.role (hvariable place)
  · intro other hother
    cases other with
    | var id => rfl
    | entry name => rfl
    | shared other =>
      have hne : other ≠ name := fun heq ↦ hother (congrArg Cell.shared heq)
      cases hstore : w.store <;> simp [SameIn, hstore, hlookup, hne]
  · exact fun _ ↦ rfl
  · exact fun hshared ↦ absurd rfl (hshared name)
  · unfold Holds
    rw [hvariable, hx]
    refine ⟨content, rfl, fun entries hentries ↦ ?_⟩
    obtain ⟨before, -, rfl⟩ := Option.map_eq_some_iff.mp hentries
    exact (hlookup before name).trans (if_pos rfl)

end Stored

end World

/-! ## Making writes -/

namespace Act

open World (Stored)

variable {w w' : World} {place : Place} {v : Value}

/-- Setting a name of the environment is done or changes nothing. -/
theorem leads_setEnv (name value : Bytes) {done : World → Prop}
    (h : ∀ environment, w.environment.set? name value = some environment →
      done { w with environment }) : (setEnv name value).Leads w (fun _ ↦ done) (· = w) := by
  unfold Leads setEnv
  rcases hset : w.environment.set? name value with _ | environment
  · rfl
  · exact h environment hset

theorem leads_kindOf (v : Value) (w : World) :
    (kindOf v).Leads w (fun kind w' ↦ v.kind? = some kind ∧ w' = w) (· = w) := by
  unfold Leads kindOf orHalt
  cases v.kind? with
  | none => rfl
  | some kind => exact ⟨rfl, rfl⟩

theorem leads_ofExcept {α : Type} (result : Except Error α) (w : World) :
    (ofExcept result).Leads w (fun a w' ↦ result = .ok a ∧ w' = w) (· = w) := by
  cases result with
  | error e => rfl
  | ok a => exact ⟨rfl, rfl⟩

/-- Only a text passes for a text. -/
theorem eq_text_of_toText {role content : Bytes} {v : Value} (h : v.toText role = .ok content) :
    v = .text content := by
  cases v <;> cases h
  rfl

/-- A plain variable takes a value of the kind that it keeps. -/
theorem leads_writePlain {id : VariableId} {kept : Option Kind} {old : Value}
    (hx : w.variableAt (.bound id) = .plain kept old) (v : Value) :
    (writePlain id kept v).Leads w (fun _ ↦ Stored [(.bound id, v)] w) (· = w) := by
  unfold writePlain
  refine (leads_kindOf v w).bind ?_
  rintro kind w' ⟨hkind, rfl⟩
  have hplain := Stored.plain hx v
  rw [hkind] at hplain
  cases kept with
  | none => exact hplain
  | some kept =>
    by_cases heq : kind = kept
    · subst heq
      simpa [Leads, modify] using hplain
    · simp [heq, Leads, raise]

/-- A name of the environment is set for the place that stands for it. -/
theorem leads_entry {name value : Bytes}
    (hcell : w.cell? place = some (.entry (Bytes.untilZero name)))
    (hholds : ∀ environment : Host.Environment,
      environment.entries.lookup (Bytes.untilZero name) = some (Bytes.untilZero value) →
        { w with environment }.Holds place v) :
    (setEnv name value).Leads w (fun _ ↦ Stored [(place, v)] w) (· = w) :=
  leads_setEnv name value fun environment hset ↦ .entry hcell hset (hholds environment)

/-- A write is accepted and made, or it changes nothing. -/
theorem leads_writePlace (place : Place) (v : Value) (w : World) :
    (writePlace place v).Leads w (fun _ ↦ Stored [(place, v)] w) (· = w) := by
  change Leads (Act.world >>= _) w _ _
  unfold Leads
  rw [world_bind]
  change Leads _ w _ _
  rcases hx : w.variableAt place with ⟨kept, old⟩ | value | name | name | _
  case plain =>
    cases place with
    | bound id => exact leads_writePlain hx v
    | env name => cases hx
    | command name => cases hx
    | shared name => cases hx
  case readOnly => rfl
  case env =>
    refine (leads_ofExcept _ w).bind ?_
    rintro content w' ⟨hcontent, rfl⟩
    have hcell : w'.cell? place = some (.entry (Bytes.untilZero name)) := by
      unfold World.cell?
      rw [hx]
    refine leads_entry hcell fun environment hentry ↦ ?_
    rw [World.Holds, World.variableAt_environment, hx]
    exact ⟨content, eq_text_of_toText hcontent, hentry⟩
  case shared =>
    refine (leads_ofExcept _ w).bind ?_
    rintro content w' ⟨hcontent, rfl⟩
    rw [eq_text_of_toText hcontent]
    exact Stored.share hx
  case paths =>
    refine (leads_kindOf v w).bind ?_
    rintro kind w' ⟨-, rfl⟩
    refine (leads_ofExcept _ w').bind ?_
    rintro content w'' ⟨hcontent, rfl⟩
    have hcell : w''.cell? place = some (.entry (Bytes.untilZero (utf8 "PATH"))) := by
      unfold World.cell?
      rw [hx]
      rfl
    refine leads_entry hcell fun environment hentry ↦ ?_
    rw [World.Holds, World.variableAt_environment, hx]
    exact ⟨content, hcontent, hentry⟩

/-- Makes writes in order. -/
def writeAll : List (Place × Value) → Act Unit
  | [] => pure ()
  | (place, v) :: others => do
    writePlace place v
    writeAll others

theorem writePlaces_eq_writeAll (places : List Place) (values : List Value) :
    writePlaces places values = writeAll (places.zip values) := by
  induction places generalizing values with
  | nil => rfl
  | cons place places ih =>
    cases values with
    | nil => rfl
    | cons v values =>
      change (writePlace place v >>= fun _ ↦ writePlaces places values) = _
      rw [ih]
      rfl

theorem writeAll_concat (writes : List (Place × Value)) (place : Place) (v : Value) :
    writeAll (writes ++ [(place, v)]) = writeAll writes >>= fun _ ↦ writePlace place v := by
  induction writes with
  | nil =>
    change (writePlace place v >>= fun _ ↦ pure ()) = pure () >>= fun _ ↦ writePlace place v
    rw [pure_bind]
    exact bind_pure (writePlace place v)
  | cons write writes ih =>
    change (writePlace _ _ >>= fun _ ↦ writeAll (writes ++ _)) =
      (writePlace _ _ >>= fun _ ↦ writeAll writes) >>= fun _ ↦ writePlace place v
    rw [bind_assoc, ih]

/-- When writes end with an error, those in front of one of them have been made, and this one is
refused with the error. -/
theorem writeAll_raised {writes : List (Place × Value)} {w w' : World} {e : Error}
    (h : writeAll writes w = (.raised e, w')) :
    ∃ made place v others, writes = made ++ (place, v) :: others ∧ Stored made w w' ∧
      writePlace place v w' = (.raised e, w') := by
  induction writes generalizing w with
  | nil => cases h
  | cons write others ih =>
    obtain ⟨place, v⟩ := write
    have hlead := leads_writePlace place v w
    unfold Leads at hlead
    rcases raised_of_bind h with hraised | ⟨_, w₁, hdone, hothers⟩
    · rw [hraised] at hlead
      obtain rfl : w' = w := hlead
      exact ⟨[], place, v, others, rfl, .nil w', hraised⟩
    · rw [hdone] at hlead
      obtain ⟨made, refused, u, rest, rfl, hmade, hrefused⟩ := ih hothers
      exact ⟨(place, v) :: made, refused, u, rest, rfl, Stored.append hlead hmade, hrefused⟩

end Act

end Conduit
