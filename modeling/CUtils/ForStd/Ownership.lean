import Mathlib.Logic.Basic

/-!
# Unique owners

Items that travel between places: `own p a` says that the place `p` has the item `a`.
No item is in two places as long as new items are put into one place, and an item that
arrives somewhere has left the place where it was.
-/

/-- Every item is in at most one place. -/
def UniqueOwner {π α : Type*} (own : π → α → Prop) : Prop :=
  ∀ p q a, own p a → own q a → p = q

namespace UniqueOwner

variable {π α : Type*} {own own' : π → α → Prop} {p q : π} {a : α}

/-- Items may disappear. -/
theorem mono (h : UniqueOwner own) (hsub : ∀ r b, own' r b → own r b) : UniqueOwner own' :=
  fun r t b hr ht => h r t b (hsub r b hr) (hsub t b ht)

/-- An item that is nowhere may appear in one place. -/
theorem create (h : UniqueOwner own) (hnew : ∀ r, ¬ own r a)
    (hsub : ∀ r b, own' r b → own r b ∨ (r = q ∧ b = a)) : UniqueOwner own' := by
  intro r t b hr ht
  rcases hsub r b hr with hr | ⟨rfl, rfl⟩
  · rcases hsub t b ht with ht | ⟨rfl, rfl⟩
    · exact h r t b hr ht
    · exact absurd hr (hnew r)
  · rcases hsub t b ht with ht | ⟨rfl, _⟩
    · exact absurd ht (hnew t)
    · rfl

/-- An item may move to another place. -/
theorem move (h : UniqueOwner own) (hold : own p a)
    (hsub : ∀ r b, own' r b → (own r b ∧ ¬ (r = p ∧ b = a)) ∨ (r = q ∧ b = a)) :
    UniqueOwner own' := by
  have hleft : ∀ r, own r a → ¬ (r = p ∧ a = a) → False :=
    fun r hr hne => hne ⟨h r p a hr hold, rfl⟩
  intro r t b hr ht
  rcases hsub r b hr with ⟨hr, hner⟩ | ⟨rfl, rfl⟩
  · rcases hsub t b ht with ⟨ht, _⟩ | ⟨rfl, rfl⟩
    · exact h r t b hr ht
    · exact (hleft r hr hner).elim
  · rcases hsub t b ht with ⟨ht, hnet⟩ | ⟨rfl, _⟩
    · exact (hleft t ht hnet).elim
    · rfl

end UniqueOwner
