import EscapeRoom.Proofs.CleanRuns

/-!
# When runs have no issues

A computation runs exactly on a condition if it reports nothing if and only if the condition holds. What its steps need
adds up to what the whole computation needs.
-/

namespace EscapeRoom.Report

variable {ι χ α β γ : Type}

/-- The computation reports nothing exactly on a condition, and then what it yields has a property. -/
structure Exact (m : Report ι χ α) (cond : Prop) (post : α → Prop) : Prop where
  sound : ∀ a, m.Yields a → cond ∧ post a
  complete : cond → ∃ a, m.Yields a

namespace Exact

variable {m : Report ι χ α} {cond cond' : Prop} {post post' : α → Prop}

theorem exists_iff (h : m.Exact cond post) : (∃ a, m.Yields a) ↔ cond :=
  ⟨fun ⟨a, ha⟩ => (h.sound a ha).1, h.complete⟩

theorem congr (h : m.Exact cond post) (hco : cond ↔ cond') (hp : cond → ∀ a, post a → post' a) :
    m.Exact cond' post' where
  sound a ha := ⟨hco.mp (h.sound a ha).1, hp (h.sound a ha).1 a (h.sound a ha).2⟩
  complete hc := h.complete (hco.mpr hc)

theorem with_post (h : m.Exact cond post) (hp : ∀ a, m.Yields a → post' a) : m.Exact cond post' where
  sound a ha := ⟨(h.sound a ha).1, hp a ha⟩
  complete := h.complete

theorem of_yields_iff {b : α} (h : ∀ a, m.Yields a ↔ cond ∧ b = a) (hp : post b) : m.Exact cond post where
  sound a ha := by
    obtain ⟨hc, rfl⟩ := (h a).mp ha
    exact ⟨hc, hp⟩
  complete hc := ⟨b, (h b).mpr ⟨hc, rfl⟩⟩

theorem of_not (h : ∀ a, ¬m.Yields a) (hco : ¬cond) : m.Exact cond post where
  sound a ha := absurd ha (h a)
  complete hc := absurd hc hco

theorem bind {f : α → Report ι χ β} {post' : β → Prop} (h : m.Exact cond post)
    (hf : ∀ a, cond → post a → (f a).Exact cond' post') : (m >>= f).Exact (cond ∧ cond') post' where
  sound b hb := by
    obtain ⟨a, ha, hb⟩ := yields_bind.mp hb
    obtain ⟨hc, hp⟩ := h.sound a ha
    obtain ⟨hc', hp'⟩ := (hf a hc hp).sound b hb
    exact ⟨⟨hc, hc'⟩, hp'⟩
  complete hc := by
    obtain ⟨a, ha⟩ := h.complete hc.1
    obtain ⟨b, hb⟩ := (hf a hc.1 (h.sound a ha).2).complete hc.2
    exact ⟨b, yields_bind.mpr ⟨a, ha, hb⟩⟩

theorem foldlM_append {f : β → α → Report ι χ β} {xs ys : List α} {b : β} {post post' : β → Prop}
    (hxs : (xs.foldlM f b).Exact cond post) (hys : ∀ b, post b → (ys.foldlM f b).Exact cond' post') :
    ((xs ++ ys).foldlM f b).Exact (cond ∧ cond') post' := by
  rw [List.foldlM_append]
  exact hxs.bind fun b _ => hys b

theorem foldlM_cons {f : β → α → Report ι χ β} {x : α} {ys : List α} {b : β} {post post' : β → Prop}
    (hx : (f b x).Exact cond post) (hys : ∀ b, post b → (ys.foldlM f b).Exact cond' post') :
    ((x :: ys).foldlM f b).Exact (cond ∧ cond') post' := by
  rw [List.foldlM_cons]
  exact hx.bind fun b _ => hys b

end Exact

/-- A fold over what stands for a list needs what its steps need, each from what comes before it. -/
theorem exact_foldlM {R : γ → α → Prop} {f : β → α → Report ι χ β} (needs : List γ → γ → Prop)
    (P : List γ → β → Prop) {xs : List γ} {ys : List α} {b : β} (hxs : List.Forall₂ R xs ys) (init : P [] b)
    (step : ∀ done x rest y b, xs = done ++ x :: rest → R x y → P done b →
      (f b y).Exact (needs done x) (P (done ++ [x]))) :
    (ys.foldlM f b).Exact (∀ done x rest, xs = done ++ x :: rest → needs done x) (P xs) := by
  suffices hs : ∀ before after ys b, xs = before ++ after → List.Forall₂ R after ys → P before b →
      (ys.foldlM f b).Exact (∀ done x rest, after = done ++ x :: rest → needs (before ++ done) x) (P (before ++ after)) by
    simpa using hs [] xs ys b rfl hxs init
  intro before after ys b he ha init
  induction ha generalizing before b with
  | nil =>
    refine .of_yields_iff (b := b) (fun a => ?_) (by simpa using init)
    simp
  | @cons x y after ys hxy _ ih =>
    have hx := step before x after y b he hxy init
    refine (hx.foldlM_cons fun b' hb' => ih (before ++ [x]) b' (by simp [he]) hb').congr ?_ ?_
    · constructor
      · rintro ⟨hx, ha⟩ done x' rest he
        cases done with
        | nil =>
          obtain ⟨rfl, -⟩ := List.cons.inj he
          simpa using hx
        | cons z done =>
          obtain ⟨rfl, hr⟩ := List.cons.inj he
          simpa using ha done x' rest hr
      · intro h
        refine ⟨by simpa using h [] x after rfl, fun done x' rest he => ?_⟩
        simpa using h (x :: done) x' rest (by rw [he, List.cons_append])
    · simp

theorem forall_not_mem_before_iff_nodup {f : α → β} {xs : List α} :
    (∀ done x rest, xs = done ++ x :: rest → f x ∉ done.map f) ↔ (xs.map f).Nodup := by
  induction xs with
  | nil => simp
  | cons x xs ih =>
    rw [List.map_cons, List.nodup_cons, ← ih]
    constructor
    · intro h
      refine ⟨fun hmem => ?_, fun done y rest he hmem => ?_⟩
      · obtain ⟨y, hy, hxy⟩ := List.mem_map.mp hmem
        obtain ⟨done, rest, rfl⟩ := List.append_of_mem hy
        exact h (x :: done) y rest rfl (by simp [hxy])
      · exact h (x :: done) y rest (by rw [he, List.cons_append]) (List.mem_cons_of_mem _ hmem)
    · rintro ⟨hx, hxs⟩ done y rest he
      cases done with
      | nil => simp
      | cons z done =>
        obtain ⟨rfl, rfl⟩ := List.cons.inj he
        rw [List.map_cons, List.mem_cons, not_or]
        refine ⟨fun hyx => hx ?_, hxs done y rest rfl⟩
        simp [← hyx]

end EscapeRoom.Report
