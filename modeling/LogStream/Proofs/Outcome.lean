/-! # Outcomes of steps in a row

A computation that may fail succeeds just if each of its steps does. -/

namespace LogStream

variable {ε α β : Type}

theorem ok_bind (a : α) (f : α → Except ε β) : (Except.ok a >>= f) = f a := rfl

theorem exists_of_bind_eq_ok {x : Except ε α} {f : α → Except ε β} {b : β}
    (h : x >>= f = .ok b) : ∃ a, x = .ok a ∧ f a = .ok b := by
  cases x with
  | error e => cases h
  | ok a => exact ⟨a, rfl, h⟩

theorem exists_of_map_eq_ok {x : Except ε α} {f : α → β} {b : β} (h : x.map f = .ok b) :
    ∃ a, x = .ok a ∧ f a = b := by
  cases x with
  | error e => cases h
  | ok a => exact ⟨a, rfl, Except.ok.inj h⟩

theorem eq_error_of_map {x : Except ε α} {f : α → β} {e : ε} (h : x.map f = .error e) :
    x = .error e := by
  cases x with
  | error e' => cases h; rfl
  | ok a => cases h

theorem eq_ok_of_toOption {x : Except ε α} {a : α} (h : x.toOption = some a) : x = .ok a := by
  cases x with
  | error e => cases h
  | ok b => exact congrArg Except.ok (Option.some.inj h)

theorem exists_of_any_toOption {x : Except ε α} {p : α → Bool} (h : x.toOption.any p = true) :
    ∃ a, x = .ok a ∧ p a = true := by
  cases x with
  | error e => cases h
  | ok a => exact ⟨a, rfl, h⟩

/-- If the computation succeeds, its result is as told. -/
def Yields (p : α → Prop) (x : Except ε α) : Prop := ∀ a, x = .ok a → p a

section

variable {p : α → Prop} {q : β → Prop} {x : Except ε α} {f : α → Except ε β}

theorem yields_ok {a : α} : Yields p (.ok a : Except ε α) ↔ p a :=
  ⟨fun h => h a rfl, fun h b hb => by cases hb; exact h⟩

theorem yields_error {e : ε} : Yields p (.error e) := nofun

theorem Yields.bind (hx : Yields p x) (hf : ∀ a, p a → Yields q (f a)) : Yields q (x >>= f) := by
  intro b hb
  obtain ⟨a, ha, hfa⟩ := exists_of_bind_eq_ok hb
  exact hf a (hx a ha) b hfa

theorem Yields.map {f : α → β} (hx : Yields p x) (hf : ∀ a, p a → q (f a)) : Yields q (x.map f) := by
  intro b hb
  obtain ⟨a, ha, rfl⟩ := exists_of_map_eq_ok hb
  exact hf a (hx a ha)

theorem Yields.imp {p' : α → Prop} (hx : Yields p x) (h : ∀ a, p a → p' a) : Yields p' x :=
  fun a ha => h a (hx a ha)

/-- Two ways to go on that meet again. -/
theorem yields_ite_bind {c : Prop} [Decidable c] {y : Except ε α} (hx : Yields p x) (hy : Yields p y)
    (hf : ∀ a, p a → Yields q (f a)) : Yields q (if c then x >>= f else y >>= f) := by
  split
  · exact hx.bind hf
  · exact hy.bind hf

theorem yields_bind_of_forall (hf : ∀ a, Yields q (f a)) : Yields q (x >>= f) :=
  Yields.bind (p := fun _ => True) (fun _ _ => trivial) fun a _ => hf a

end

theorem toOption_bind (x : Except ε α) (f : α → Except ε β) :
    (x >>= f).toOption = x.toOption.bind fun a => (f a).toOption := by
  cases x <;> rfl

end LogStream
