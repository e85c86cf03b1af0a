import FerrisBridge.Foundations.Trace

/-!
# Numbered tickets

A machine gives out numbered tickets for keys, and their holders use them. Every key has a count that
outlives whatever else the machine forgets: it never decreases, and it has reached the number of a
ticket by the time that anybody holds the ticket. Then no ticket is ever used twice, even if holders
and their tickets get lost in between.
-/

namespace Foundations

variable {σ ι ο κ ω : Type}

/-! ## Counts -/

/-- A step takes a number for a key: the key has been counted below the number before it, and up to
the number after it. -/
structure Takes (count : σ → κ → ℕ) (e : Entry σ ι ο) (key : κ) (number : ℕ) : Prop where
  fresh : count e.before key < number
  counted : number ≤ count e.after key

/-! ## Holders -/

/-- The counts of a machine, who holds which ticket, and the ticket that a step uses. -/
structure Tickets (σ ι ο κ ω : Type) where
  count : σ → κ → ℕ
  held : σ → ω → Option (κ × ℕ)
  used : Entry σ ι ο → Option (κ × ℕ)

namespace Tickets

variable (tickets : Tickets σ ι ο κ ω)

/-- What is held has been counted, and is held once. -/
structure Sound (s : σ) : Prop where
  counted : ∀ holder ticket, tickets.held s holder = some ticket →
    ticket.2 ≤ tickets.count s ticket.1
  unique : ∀ holder other ticket, tickets.held s holder = some ticket →
    tickets.held s other = some ticket → holder = other

/-- A step lets no count decrease; it gives at most one holder a ticket, with a number that has not
been counted before; and a ticket that it uses leaves its holder. -/
structure Fair (e : Entry σ ι ο) : Prop where
  grows : ∀ key, tickets.count e.before key ≤ tickets.count e.after key
  gained : ∀ holder ticket, tickets.held e.after holder = some ticket →
    tickets.held e.before holder = some ticket ∨
      Takes tickets.count e ticket.1 ticket.2 ∧ ∀ other ≠ holder, ∀ ticket',
        tickets.held e.after other = some ticket' → tickets.held e.before other = some ticket'
  spent : ∀ ticket, tickets.used e = some ticket → ∃ holder,
    tickets.held e.before holder = some ticket ∧ tickets.held e.after holder ≠ some ticket

/-- A ticket that has been counted, and that nobody holds. -/
structure Gone (s : σ) (ticket : κ × ℕ) : Prop where
  counted : ticket.2 ≤ tickets.count s ticket.1
  free : ∀ holder, tickets.held s holder ≠ some ticket

variable {tickets} {e : Entry σ ι ο} {ticket : κ × ℕ}

/-- A ticket that has been counted is not given out. -/
theorem Fair.held_of_counted (h : tickets.Fair e) {holder : ω}
    (hcounted : ticket.2 ≤ tickets.count e.before ticket.1)
    (hheld : tickets.held e.after holder = some ticket) :
    tickets.held e.before holder = some ticket := by
  rcases h.gained holder ticket hheld with hkept | ⟨htaken, -⟩
  · exact hkept
  · exact absurd htaken.fresh hcounted.not_gt

theorem Sound.step (hsound : tickets.Sound e.before) (h : tickets.Fair e) :
    tickets.Sound e.after := by
  refine ⟨fun holder ticket hheld ↦ ?_, fun holder other ticket hheld hother ↦ ?_⟩
  · rcases h.gained holder ticket hheld with hkept | ⟨htaken, -⟩
    · exact (hsound.counted holder ticket hkept).trans (h.grows ticket.1)
    · exact htaken.counted
  · rcases h.gained holder ticket hheld with hkept | ⟨htaken, hothers⟩
    · have hcounted := hsound.counted holder ticket hkept
      exact hsound.unique holder other ticket hkept (h.held_of_counted hcounted hother)
    · by_contra hne
      have hkept := hothers other (Ne.symm hne) ticket hother
      exact absurd htaken.fresh (hsound.counted other ticket hkept).not_gt

theorem Gone.step (hgone : tickets.Gone e.before ticket) (h : tickets.Fair e) :
    tickets.Gone e.after ticket where
  counted := hgone.counted.trans (h.grows ticket.1)
  free holder hheld := hgone.free holder (h.held_of_counted hgone.counted hheld)

/-- A ticket is gone once it has been used. -/
theorem Fair.gone (h : tickets.Fair e) (hsound : tickets.Sound e.before)
    (hused : tickets.used e = some ticket) : tickets.Gone e.after ticket := by
  obtain ⟨holder, hheld, hleft⟩ := h.spent ticket hused
  have hcounted := hsound.counted holder ticket hheld
  refine ⟨hcounted.trans (h.grows ticket.1), fun other hother ↦ ?_⟩
  have hkept := h.held_of_counted hcounted hother
  obtain rfl := hsound.unique holder other ticket hheld hkept
  exact hleft hother

variable {step : ι → σ → ο × σ} {s : σ} {inputs : List ι}

/-- Throughout a run of fair steps the tickets are sound. -/
theorem trace_sound (tickets : Tickets σ ι ο κ ω) (Inv : σ → Prop) (hinit : Inv s)
    (hsound : tickets.Sound s)
    (hstep : ∀ s i, Inv s → Inv (step i s).2 ∧ tickets.Fair (stepEntry step s i)) :
    ∀ e ∈ trace step s inputs, tickets.Sound e.before ∧ tickets.Fair e := by
  have hinv : ∀ e ∈ trace step s inputs, (Inv e.before ∧ tickets.Sound e.before) ∧
      (Inv e.after ∧ tickets.Sound e.after) :=
    (trace_invariant (fun s ↦ Inv s ∧ tickets.Sound s) (fun _ ↦ True) ⟨hinit, hsound⟩
      (fun s i h _ ↦ ⟨(hstep s i h.1).1,
        Sound.step (e := stepEntry step s i) h.2 (hstep s i h.1).2⟩) fun _ _ ↦ trivial).1
  intro e he
  have hbefore := (hinv e he).1
  obtain ⟨before, i, rfl⟩ := exists_eq_stepEntry he
  exact ⟨hbefore.2, (hstep before i hbefore.1).2⟩

/-- No ticket is used twice. -/
theorem used_nodup (tickets : Tickets σ ι ο κ ω) (Inv : σ → Prop) (hinit : Inv s)
    (hsound : tickets.Sound s)
    (hstep : ∀ s i, Inv s → Inv (step i s).2 ∧ tickets.Fair (stepEntry step s i)) :
    ((trace step s inputs).filterMap tickets.used).Nodup := by
  have hfair : ∀ e ∈ trace step s inputs, tickets.Sound e.before ∧ tickets.Fair e :=
    trace_sound tickets Inv hinit hsound hstep
  have hgone : (trace step s inputs).Pairwise fun e later ↦
      ∀ ticket, tickets.Gone e.after ticket → tickets.Gone later.before ticket :=
    trace_pairwise Inv (fun s s' ↦ ∀ ticket, tickets.Gone s ticket → tickets.Gone s' ticket)
      (fun _ ↦ True) hinit (fun _ _ h ↦ h)
      (fun _ _ _ h h' ticket hgone ↦ h' ticket (h ticket hgone))
      (fun s i h _ ↦ ⟨(hstep s i h).1, fun ticket hgone ↦
        Gone.step (e := stepEntry step s i) hgone (hstep s i h).2⟩) fun _ _ ↦ trivial
  rw [List.Nodup, List.pairwise_filterMap]
  refine hgone.imp_of_mem ?_
  rintro e later he hlater hgone ticket hused ticket hused' rfl
  obtain ⟨hsound, hfirst⟩ := hfair e he
  have hfree := (hgone ticket (hfirst.gone hsound hused)).free
  obtain ⟨holder, hheld, -⟩ := (hfair later hlater).2.spent ticket hused'
  exact hfree holder hheld

end Tickets

/-- Of a key whose numbers lie between one and a bound, no more tickets than the bound are used. -/
theorem length_le_of_nodup [DecidableEq κ] {used : List (κ × ℕ)} {key : κ} {bound : ℕ}
    (hnodup : used.Nodup) (hrange : ∀ ticket ∈ used, ticket.1 = key → 1 ≤ ticket.2 ∧ ticket.2 ≤ bound) :
    (used.filter (·.1 = key)).length ≤ bound := by
  have hnumbers : ((used.filter (·.1 = key)).map Prod.snd).Nodup := by
    refine (hnodup.filter _).map_on ?_
    rintro ⟨first, number⟩ hfirst ⟨second, number'⟩ hsecond rfl
    have hkey : first = key := by simpa using (List.mem_filter.mp hfirst).2
    have hkey' : second = key := by simpa using (List.mem_filter.mp hsecond).2
    rw [hkey, hkey']
  have hsubset : ((used.filter (·.1 = key)).map Prod.snd).toFinset ⊆ Finset.Icc 1 bound := by
    intro number hnumber
    obtain ⟨ticket, hticket, rfl⟩ := List.mem_map.mp (List.mem_toFinset.mp hnumber)
    obtain ⟨hmem, hkey⟩ := List.mem_filter.mp hticket
    exact Finset.mem_Icc.mpr (hrange ticket hmem (by simpa using hkey))
  calc (used.filter (·.1 = key)).length
      = ((used.filter (·.1 = key)).map Prod.snd).toFinset.card := by
        rw [List.toFinset_card_of_nodup hnumbers, List.length_map]
    _ ≤ (Finset.Icc 1 bound).card := Finset.card_le_card hsubset
    _ = bound := by rw [Nat.card_Icc, Nat.add_sub_cancel]

end Foundations
