import OnlineChat.MiniJson.RoundTrip

/-!
# The fields of an object

In an object without a name twice each field is found under its name, and `set` never
brings a name in twice.
-/

namespace OnlineChat.MiniJson

variable {o : Object} {k : Bytes} {v : Value} {fields : List (Bytes × Value)}

/-! ## Reading a field -/

/-- What `get_str` finds in a field. -/
def Value.asStr : Value → Bytes
  | .str s => s
  | _ => []

/-- A field of another name does not count. -/
theorem findSome?_of_notMem {α : Type} {read : Bytes × Value → Option α}
    (other : ∀ field, field.1 ≠ k → read field = none) (absent : k ∉ fields.map Prod.fst) :
    fields.findSome? read = none := by
  apply List.findSome?_eq_none_iff.mpr
  intro field among
  apply other
  rintro rfl
  exact absent (List.mem_map_of_mem among)

/-- Only the field of that name counts. -/
theorem findSome?_of_mem {α : Type} {read : Bytes × Value → Option α}
    (other : ∀ field, field.1 ≠ k → read field = none) (apart : (fields.map Prod.fst).Nodup)
    (there : (k, v) ∈ fields) : fields.findSome? read = read (k, v) := by
  induction fields with
  | nil => cases there
  | cons field fields inductionHypothesis =>
      obtain ⟨absent, apart⟩ := List.nodup_cons.mp apart
      rcases List.mem_cons.mp there with rfl | later
      · rw [List.findSome?_cons, findSome?_of_notMem other absent]
        cases read (k, v) <;> rfl
      · have differs : field.1 ≠ k := by
          rintro same
          rw [same] at absent
          exact absent (List.mem_map_of_mem (f := Prod.fst) later)
        rw [List.findSome?_cons, other field differs, inductionHypothesis apart later]

theorem Object.getStr_of_mem (apart : (o.fields.map Prod.fst).Nodup) (there : (k, v) ∈ o.fields) :
    o.getStr k = v.asStr := by
  unfold getStr
  rw [findSome?_of_mem (k := k) (v := v) ?_ apart there]
  · cases v <;> simp [Value.asStr]
  · rintro ⟨k', v'⟩ differs
    cases v' <;> simp [differs]

theorem Object.getNum_of_mem {n : Int} (apart : (o.fields.map Prod.fst).Nodup)
    (there : (k, .num n) ∈ o.fields) : o.getNum k = n := by
  unfold getNum
  rw [findSome?_of_mem (k := k) (v := .num n) ?_ apart there]
  · simp
  · rintro ⟨k', v'⟩ differs
    cases v' <;> simp [differs]

/-! ## No name twice -/

mutual

/-- No object in the value has a name twice. -/
def Value.Distinct : Value → Prop
  | .str _ | .num _ | .nullObj => True
  | .list items => DistinctItems items
  | .obj fields => (fields.map Prod.fst).Nodup ∧ DistinctFields fields

def DistinctItems : List Value → Prop
  | [] => True
  | v :: vs => v.Distinct ∧ DistinctItems vs

def DistinctFields : List (Bytes × Value) → Prop
  | [] => True
  | (_, v) :: fields => v.Distinct ∧ DistinctFields fields

end

theorem distinctItems_of_forall {items : List Value} (apart : ∀ v ∈ items, v.Distinct) :
    DistinctItems items := by
  induction items with
  | nil => trivial
  | cons v vs inductionHypothesis =>
      exact ⟨apart v (List.mem_cons_self ..),
        inductionHypothesis fun other among => apart other (List.mem_cons_of_mem _ among)⟩

/-- No name twice in the object, and in none that it holds. -/
def Object.Distinct (o : Object) : Prop := Value.Distinct (.obj o.fields)

namespace Object.Distinct

theorem empty : ({} : Object).Distinct := ⟨List.nodup_nil, trivial⟩

theorem set (apart : o.Distinct) (value : v.Distinct) : (o.set k v).Distinct := by
  obtain ⟨fields⟩ := o
  induction fields with
  | nil => exact ⟨List.nodup_singleton k, value, trivial⟩
  | cons field fields inductionHypothesis =>
      obtain ⟨k', v'⟩ := field
      obtain ⟨names, first, others⟩ := apart
      simp only [Object.set, Object.setIn, Object.Distinct] at inductionHypothesis ⊢
      split
      · exact ⟨names, value, others⟩
      next differs =>
        obtain ⟨absent, names⟩ := List.nodup_cons.mp names
        obtain ⟨names', others'⟩ := inductionHypothesis ⟨names, others⟩
        refine ⟨List.nodup_cons.mpr ⟨?_, names'⟩, first, others'⟩
        intro among
        rcases (keys_setIn k v fields k').mp among with same | among
        · exact differs same
        · exact absent among

theorem setStr {s : Bytes} (apart : o.Distinct) : (o.setStr k s).Distinct := apart.set trivial

theorem setNum {n : Int} (apart : o.Distinct) : (o.setNum k n).Distinct := apart.set trivial

theorem setList {texts : List Bytes} (apart : o.Distinct) : (o.setList k texts).Distinct := by
  apply apart.set
  apply distinctItems_of_forall
  intro v among
  obtain ⟨s, -, rfl⟩ := List.mem_map.mp among
  trivial

theorem setObjs {objs : List Object} (apart : o.Distinct)
    (items : ∀ item ∈ objs, item.Distinct) : (o.setObjs k objs).Distinct := by
  apply apart.set
  apply distinctItems_of_forall
  intro v among
  obtain ⟨item, there, rfl⟩ := List.mem_map.mp among
  exact items item there

end Object.Distinct

end OnlineChat.MiniJson
