import Mathlib.Data.List.Basic

/-! # Histories in which every entry is allowed by what came before

`Orderly P h`: every entry of the history `h` meets `P` together with the entries before it. "No `q`
after a `p`", "no second `p`" and "the counts agree whenever a `p` happens" are of this form. -/

namespace AsyncGrpc.Lib.Histories

variable {α : Type} {P : List α → α → Prop} {h k : List α} {a : α}

/-- Every entry of the history is allowed by the entries before it. -/
def Orderly (P : List α → α → Prop) (h : List α) : Prop :=
  ∀ pre a post, h = pre ++ a :: post → P pre a

theorem orderly_nil (P : List α → α → Prop) : Orderly P [] := by
  intro pre a post h
  simp at h

theorem orderly_append : Orderly P (h ++ k) ↔
    Orderly P h ∧ ∀ pre a post, k = pre ++ a :: post → P (h ++ pre) a := by
  constructor
  · intro ho
    refine ⟨fun pre a post hp => ?_, fun pre a post hp => ?_⟩
    · exact ho pre a (post ++ k) (by simp [hp])
    · exact ho (h ++ pre) a post (by simp [hp])
  · rintro ⟨hh, hk⟩ pre a post hp
    rcases List.append_eq_append_iff.mp hp with ⟨mid, rfl, h2⟩ | ⟨mid, h1, h2⟩
    · exact hk mid a post h2
    · rcases mid with _ | ⟨b, mid⟩
      · have := hk [] a post (by simpa using h2.symm)
        simpa [h1] using this
      · obtain ⟨rfl, -⟩ := List.cons.inj h2
        exact hh pre a mid h1

theorem orderly_snoc : Orderly P (h ++ [a]) ↔ Orderly P h ∧ P h a := by
  rw [orderly_append]
  constructor
  · rintro ⟨h1, h2⟩
    have := h2 [] a [] rfl
    rw [List.append_nil] at this
    exact ⟨h1, this⟩
  · rintro ⟨h1, h2⟩
    refine ⟨h1, fun pre b post hp => ?_⟩
    rcases pre with _ | ⟨c, pre⟩
    · obtain ⟨rfl, -⟩ := List.cons.inj hp
      simpa using h2
    · simp at hp

/-- A history stays orderly when entries are added that are always allowed. -/
theorem Orderly.append_of_forall (hh : Orderly P h) (hk : ∀ a ∈ k, ∀ pre, P pre a) :
    Orderly P (h ++ k) := by
  rw [orderly_append]
  refine ⟨hh, fun pre a post hp => hk a ?_ _⟩
  rw [hp]
  simp

theorem orderly_append_of_forall (hk : ∀ a ∈ k, ∀ pre, P pre a) :
    Orderly P (h ++ k) ↔ Orderly P h :=
  ⟨fun ho => (orderly_append.mp ho).1, fun ho => ho.append_of_forall hk⟩

/-- Of the entries added, only one has to be looked at. -/
theorem orderly_append_one {pre post : List α} (hpre : ∀ a ∈ pre, ∀ h, P h a)
    (hpost : ∀ a ∈ post, ∀ h, P h a) :
    Orderly P (h ++ (pre ++ a :: post)) ↔ Orderly P h ∧ P (h ++ pre) a := by
  have he : h ++ (pre ++ a :: post) = ((h ++ pre) ++ [a]) ++ post := by simp
  rw [he, orderly_append_of_forall hpost, orderly_snoc, orderly_append_of_forall hpre]

theorem orderly_iff_getElem : Orderly P h ↔ ∀ i : Fin h.length, P (h.take i) (h.get i) := by
  constructor
  · intro ho i
    refine ho _ _ (h.drop (i + 1)) ?_
    have := List.take_append_drop i.val h
    rw [List.drop_eq_getElem_cons i.isLt] at this
    exact this.symm
  · rintro hi pre a post rfl
    have := hi ⟨pre.length, by simp⟩
    simpa using this

/-- What is said of the `x` that an entry is made of can be decided if `x` can be read off it. -/
@[reducible] def decidableOfReads {β : Type} {make : β → α} (read : α → Option β)
    (hread : ∀ a x, read a = some x ↔ a = make x) (Q : β → Prop) [DecidablePred Q] (a : α) :
    Decidable (∀ x, a = make x → Q x) :=
  decidable_of_iff (∀ x ∈ read a, Q x) (forall_congr' fun x => imp_congr_left (hread a x))

instance instDecidableOrderly [∀ pre a, Decidable (P pre a)] : Decidable (Orderly P h) :=
  decidable_of_iff _ orderly_iff_getElem.symm

end AsyncGrpc.Lib.Histories
