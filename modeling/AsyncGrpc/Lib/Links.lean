import AsyncGrpc.Lib.Runs

/-! # Two machines and what runs between them

* `beside A B`: the machines `A` and `B` side by side, each of which makes its steps on its own.
  `Keeps M p as`: every step of the run `as` meets `p`; this is how the assumptions on what is between the
  two machines are stated. `inv_of_beside`: an invariant of both is proved over the steps of each, at
  reachable states, with what the assumption says of the step.
* `content f l` and `closing f l`: a list read as a stream that one of its entries ends. What came before
  the end is not changed by what comes later (`content_of_closed`), and a receiver that always takes the
  next entry has a part of it from its beginning (`prefix_snoc`). -/

namespace AsyncGrpc.Lib.Links

open AsyncGrpc.Lib.Runs

/-! ### Machines side by side -/

section Beside
variable {σ τ α β ε δ : Type} {A : Machine σ α ε} {B : Machine τ β δ}

/-- Both machines; each makes its own steps. -/
def beside (A : Machine σ α ε) (B : Machine τ β δ) : Machine (σ × τ) (α ⊕ β) (ε ⊕ δ) where
  init := (A.init, B.init)
  step := fun s c =>
    match c with
    | .inl a => (A.step s.1 a).map fun r => ((·, s.2) <$> r).mapError .inl
    | .inr b => (B.step s.2 b).map fun r => ((s.1, ·) <$> r).mapError .inr

/-- The ways the two machines make a step. -/
inductive Moved (A : Machine σ α ε) (B : Machine τ β δ) (s : σ) (t : τ) : α ⊕ β → σ × τ → Prop
  | left {a : α} {s' : σ} (ha : A.Step s a s') : Moved A B s t (.inl a) (s', t)
  | right {b : β} {t' : τ} (hb : B.Step t b t') : Moved A B s t (.inr b) (s, t')

theorem beside_cases {s : σ} {t : τ} {c : α ⊕ β} {p : σ × τ}
    (h : (beside A B).Step (s, t) c p) : Moved A B s t c p := by
  cases c with
  | inl a =>
    replace h : ((A.step s a).map fun r => ((·, t) <$> r).mapError Sum.inl) =
      some (.ok p : Except (ε ⊕ δ) (σ × τ)) := h
    obtain ⟨r, hr, h⟩ := Option.map_eq_some_iff.mp h
    obtain ⟨s', rfl, rfl⟩ := map_eq_ok.mp (mapError_eq_ok.mp h)
    exact .left hr
  | inr b =>
    replace h : ((B.step t b).map fun r => ((s, ·) <$> r).mapError Sum.inr) =
      some (.ok p : Except (ε ⊕ δ) (σ × τ)) := h
    obtain ⟨r, hr, h⟩ := Option.map_eq_some_iff.mp h
    obtain ⟨t', rfl, rfl⟩ := map_eq_ok.mp (mapError_eq_ok.mp h)
    exact .right hr

/-- Each machine does a run of its own. -/
theorem reachable_of_beside {p : σ × τ} (h : Reachable (beside A B) p) :
    Reachable A p.1 ∧ Reachable B p.2 := by
  refine inv_of_reachable (I := fun p : σ × τ => Reachable A p.1 ∧ Reachable B p.2)
    ⟨Run.init.reachable, Run.init.reachable⟩ (fun p c p' hi hs => ?_) h
  cases beside_cases hs with
  | left ha => exact ⟨hi.1.step ha, hi.2⟩
  | right hb => exact ⟨hi.1, hi.2.step hb⟩

/-- Every step of the run meets `p`. -/
def Keeps (M : Machine σ α ε) (p : σ → α → Bool) (as : List α) : Prop :=
  Along M (fun s a => p s a = true) as

theorem keeps_of_check {M : Machine σ α ε} {p : σ → α → Bool} {as : List α}
    (h : checkAlong M p M.init as = true) : Keeps M p as :=
  along_of_check (fun _ _ hp => hp) h

theorem Keeps.and {M : Machine σ α ε} {p q : σ → α → Bool} {as : List α} (hp : Keeps M p as)
    (hq : Keeps M q as) : Keeps M (fun s a => p s a && q s a) as :=
  fun pre a post s he hr => (Bool.and_eq_true _ _).mpr ⟨hp pre a post s he hr, hq pre a post s he hr⟩

/-- **Invariants of two machines**, under an assumption on the steps of both. -/
theorem inv_of_beside {p : σ × τ → α ⊕ β → Bool} {I : σ → τ → Prop} (h0 : I A.init B.init)
    (hA : ∀ s t a s', Reachable A s → Reachable B t → I s t → p (s, t) (.inl a) = true →
      A.Step s a s' → I s' t)
    (hB : ∀ s t b t', Reachable A s → Reachable B t → I s t → p (s, t) (.inr b) = true →
      B.Step t b t' → I s t')
    {as : List (α ⊕ β)} {s : σ} {t : τ} (hr : Run (beside A B) as (s, t))
    (hk : Keeps (beside A B) p as) : I s t := by
  suffices hI : ∀ q : σ × τ, Run (beside A B) as q → Keeps (beside A B) p as → I q.1 q.2 from hI _ hr hk
  clear hr hk
  intro q hq hk
  induction hq with
  | init => exact h0
  | @step as q q' c hq hs ih =>
    obtain ⟨h1, h2⟩ := reachable_of_beside hq.reachable
    obtain ⟨hk', hp⟩ := (along_snoc hq).mp hk
    cases beside_cases hs with
    | left ha => exact hA _ _ _ _ h1 h2 (ih hk') hp ha
    | right hb => exact hB _ _ _ _ h1 h2 (ih hk') hp hb

end Beside

/-! ### Streams that end -/

section Streams
variable {ω ω' μ : Type} (f : ω → Option μ)

/-- The values up to the first entry that has none. -/
def content : List ω → List μ
  | [] => []
  | x :: l =>
    match f x with
    | some m => m :: content l
    | none => []

/-- The first entry that has no value: it ends the stream. -/
def closing : List ω → Option ω
  | [] => none
  | x :: l => if (f x).isSome then closing l else some x

theorem content_append : ∀ l k : List ω,
    content f (l ++ k) = content f l ++ if (closing f l).isSome then [] else content f k
  | [], k => rfl
  | x :: l, k => by
    have ih := content_append l k
    cases h : f x with
    | none => simp [content, closing, h]
    | some m => simpa [content, closing, h] using ih

theorem closing_append : ∀ l k : List ω, closing f (l ++ k) = (closing f l).or (closing f k)
  | [], k => rfl
  | x :: l, k => by
    have ih := closing_append l k
    cases h : f x with
    | none => simp [closing, h]
    | some m => simpa [closing, h] using ih

theorem content_map (h : ω' → ω) : ∀ l : List ω', content f (l.map h) = content (fun x => f (h x)) l
  | [] => rfl
  | x :: l => by
    have ih := content_map h l
    cases hx : f (h x) with
    | none => simp [content, hx]
    | some m => simpa [content, hx] using ih

theorem closing_map (h : ω' → ω) :
    ∀ l : List ω', closing f (l.map h) = (closing (fun x => f (h x)) l).map h
  | [] => rfl
  | x :: l => by
    have ih := closing_map h l
    cases hx : f (h x) with
    | none => simp [closing, hx]
    | some m => simpa [closing, hx] using ih

variable {f}

theorem content_mono {l k : List ω} (h : l <+: k) : content f l <+: content f k := by
  obtain ⟨r, rfl⟩ := h
  rw [content_append]
  exact List.prefix_append _ _

theorem closing_mono {l k : List ω} {x : ω} (h : l <+: k) (hx : closing f l = some x) :
    closing f k = some x := by
  obtain ⟨r, rfl⟩ := h
  rw [closing_append, hx, Option.some_or]

/-- A stream that has ended does not change. -/
theorem content_of_closed {l k : List ω} (h : l <+: k) (hl : closing f l ≠ none) :
    content f k = content f l := by
  obtain ⟨r, rfl⟩ := h
  rw [content_append, if_pos (Option.isSome_iff_ne_none.mpr hl), List.append_nil]

/-- The next value is received. -/
theorem prefix_snoc {got sent : List μ} {m : μ} (h : got <+: sent) (hm : sent[got.length]? = some m) :
    got ++ [m] <+: sent := by
  obtain ⟨rest, rfl⟩ := h
  cases rest with
  | nil => simp at hm
  | cons x rest =>
    obtain rfl : x = m := by simpa using hm
    exact ⟨rest, by simp⟩

end Streams

end AsyncGrpc.Lib.Links
