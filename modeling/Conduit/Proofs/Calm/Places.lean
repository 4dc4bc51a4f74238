import Conduit.Proofs.Calm

/-!
# Calm Operations on Places and Streams

Reading and writing variables, the environment, the store and byte streams changes data only.  What
is read from a place was stored in it.
-/

namespace Conduit

variable {given : Closure → Prop}

namespace World

theorem Calm.skip (w : World) (id : StreamId) (count : Nat) : Calm given w (w.skip id count) := by
  unfold World.skip
  split
  · exact .modifyStream w fun s ↦ ⟨rfl, rfl, rfl⟩
  · exact .other w _ _ _ _ _ _ _
  · exact .refl w

theorem Calm.readAll (w : World) (id : StreamId) : Calm given w (w.readAll id).2 := .skip w _ _

theorem Calm.writeNode (w : World) (node : Host.NodeId) (offset : Nat) (bytes : Bytes) :
    Calm given w (w.writeNode node offset bytes) :=
  .other w _ _ _ _ _ _ _

theorem Calm.write {w w' : World} {id : StreamId} {bytes : Bytes} (h : w.write id bytes = .ok w') :
    Calm given w w' := by
  unfold World.write at h
  split at h
  · cases h
    exact .writeNode w _ _ _
  · cases h
    exact (writeNode w _ _ _).trans (.skip _ _ _)
  · cases h
    exact (writeNode w _ _ _).trans (.skip _ _ _)
  · split at h
    · cases h
      exact .other w _ _ _ _ _ _ _
    · cases h
  · cases h
    exact .refl w
  · cases h

end World

/-- What a variable keeps is stored. -/
theorem World.stores_of_variableAt {w : World} {place : Place} {c : Closure}
    (hc : c ∈ (w.variableAt place).closures) : w.Stores c := by
  unfold World.variableAt at hc
  split at hc
  · rename_i id
    rcases hx : w.vars.get? id with _ | x <;> rw [hx] at hc
    · change c ∈ Value.absent.closures at hc
      simp at hc
    · exact .inl ⟨id, x, hx, hc⟩
  all_goals simp [Variable.closures] at hc

/-- The closures in what a variable reads as are those that it keeps. -/
theorem Variable.closures_read {w : World} {x : Variable} {v : Value} (h : x.read w = .ok v) :
    v.closures = x.closures := by
  unfold Variable.read at h
  split at h
  · cases h
    rfl
  · cases h
    rfl
  · cases h
    simp [Variable.closures]
  · split at h <;> cases h
    simp [Variable.closures]
  · cases h
    simp [Variable.closures]

namespace Act

open World (Calm)

theorem calm_setEnv (name value : Bytes) : Keeps (Calm given) (setEnv name value) := by
  intro w
  unfold setEnv
  split
  · rename_i hset
    exact .setEnvironment w hset
  · exact .refl w

theorem calm_kindOf (v : Value) : Keeps (Calm given) (kindOf v) := .orHalt _ _

theorem calm_readPlace (place : Place) : Keeps (Calm given) (readPlace place) :=
  fun w ↦ Keeps.ofExcept ((w.variableAt place).read w) w

/-- What is read from a place was stored in it. -/
theorem readPlace_stored (place : Place) (w : World) :
    (readPlace place).Leads w (fun v w' ↦ w' = w ∧ ∀ c ∈ v.closures, w.Stores c) (· = w) := by
  unfold Leads readPlace ofExcept
  rcases hread : (w.variableAt place).read w with _ | v
  · rfl
  · refine ⟨rfl, fun c hc ↦ ?_⟩
    rw [Variable.closures_read hread] at hc
    exact World.stores_of_variableAt hc

theorem calm_writePlain (id : VariableId) (kept : Option Kind) {v : Value}
    (hv : ∀ c ∈ v.closures, given c) : Keeps (Calm given) (writePlain id kept v) := by
  unfold writePlain
  refine .bind (calm_kindOf v) fun kind ↦ ?_
  split
  · exact .modify fun w ↦ .setVariable w hv
  · split
    · exact .modify fun w ↦ .setVariable w hv
    · exact .raise _

theorem calm_writePlace (place : Place) {v : Value} (hv : ∀ c ∈ v.closures, given c) :
    Keeps (Calm given) (writePlace place v) := by
  unfold writePlace
  refine .bind .world fun w ↦ ?_
  split
  · exact calm_writePlain _ _ hv
  · exact .pure _
  · exact .raise _
  · exact .bind (.ofExcept _) fun value ↦ calm_setEnv _ _
  · exact .bind (.ofExcept _) fun value ↦ .modify fun w ↦ .other w _ _ _ _ _ _ _
  · exact .bind (calm_kindOf v) fun _ ↦ .bind (.ofExcept _) fun value ↦ calm_setEnv _ _

theorem calm_writePlaces (places : List Place) (values : List Value)
    (hv : ∀ v ∈ values, ∀ c ∈ v.closures, given c) :
    Keeps (Calm given) (writePlaces places values) := by
  induction places generalizing values with
  | nil => exact .pure _
  | cons place places ih =>
    cases values with
    | nil => exact .pure _
    | cons v values =>
      exact .bind (calm_writePlace place (hv v (by simp))) fun _ ↦
        ih values fun u hu ↦ hv u (by simp [hu])

theorem calm_distribute (fixed rest : List Place) (values : List Value)
    (hv : ∀ v ∈ values, ∀ c ∈ v.closures, given c) :
    Keeps (Calm given) (distribute fixed rest values) := by
  unfold distribute
  split
  · split
    · exact .raise _
    · exact calm_writePlaces _ _ hv
  · split
    · exact .raise _
    · refine .bind (calm_writePlaces _ _ hv) fun _ ↦ calm_writePlace _ fun c hc ↦ ?_
      rw [Value.closures_list, Value.mem_closuresOf] at hc
      obtain ⟨v, hmem, hcv⟩ := hc
      exact hv v (List.mem_of_mem_drop hmem) c hcv
  · exact .raise _

end Act

end Conduit
