import TrtLlm.Scheduler.PrefixWaitPlanner

/-!
Which requests wait in a pass of `PrefixWaitPlanner`, and how often a request waits over a run.

* `Finds.ownerToWaitFor`: the owner that is found shares the most units;
* `LoopOk.planRequest`: the loop of `plan`, request by request;
* `plan_waits`: **what every pass returns, and the number of passes a request waits** while it is a
  candidate without a break;
* `plan_waits_again`: a request that leaves the list for a pass has its passes counted from zero
  again.
-/

namespace TrtLlm.PrefixWait

open Planner List Option UMap

variable {σ δ : Type} [DecidableEq σ] [DecidableEq δ]

/-! ### The deepest owner -/

/-- A table of digests has an entry for those of the requests in `S`, and no others. -/
structure Finds (e : Setup σ δ) (S : ℕ → Prop) (lookup : δ → Option ℕ) : Prop where
  sound : ∀ d o, lookup d = some o → S o ∧ d ∈ e.fingerprints o
  complete : ∀ d o, S o → d ∈ e.fingerprints o → lookup d ≠ none

variable {e : Setup σ δ} {S C : ℕ → Prop} {lookup : δ → Option ℕ} {id : ℕ}

variable {o : ℕ}

omit [DecidableEq δ] in
/-- What is not found beyond a depth is not shared there. -/
lemma Finds.shared_le (h : Finds e S lookup) {depth : ℕ}
    (hnone : ∀ d, (e.fingerprints id)[depth]? = some d → lookup d = none) (ho : S o) :
    e.shared id o ≤ depth := by
  by_contra hlt
  push Not at hlt
  have hlen : depth < (e.fingerprints id).length := lt_of_lt_of_le hlt (PrefixWait.shared_le e id o)
  have hget := getElem?_eq_getElem hlen
  exact h.complete _ o ho ((mem_fingerprints_iff e hget).mpr hlt) (hnone _ hget)

omit [DecidableEq δ] in
/-- **The search finds a request that shares the most units.** -/
lemma Finds.deepest_eq_some (h : Finds e S lookup) {lo depth : ℕ}
    (hfound : deepest lookup (e.fingerprints id) lo (e.fingerprints id).length = some (o, depth)) :
    S o ∧ lo < depth ∧ e.shared id o = depth ∧ ∀ o', S o' → e.shared id o' ≤ depth := by
  obtain ⟨hlo, hlen, ⟨d, hd, hlook⟩, hnone⟩ := PrefixWait.deepest_eq_some hfound
  obtain ⟨hS, hmem⟩ := h.sound d o hlook
  have hlt : depth - 1 < e.shared id o := (mem_fingerprints_iff e hd).mp hmem
  have hall : ∀ o', S o' → e.shared id o' ≤ depth := fun o' ho' =>
    h.shared_le (fun d' hd' => by
      have hin : depth < (e.fingerprints id).length := (List.getElem?_eq_some_iff.mp hd').1
      exact hnone depth d' (le_refl _) hin hd') ho'
  exact ⟨hS, hlo, le_antisymm (hall o hS) (by omega), hall⟩

omit [DecidableEq δ] in
lemma Finds.deepest_eq_none (h : Finds e S lookup) {lo : ℕ}
    (hfound : deepest lookup (e.fingerprints id) lo (e.fingerprints id).length = none)
    (ho : S o) : e.shared id o ≤ lo :=
  h.shared_le (fun _ hd => PrefixWait.deepest_eq_none hfound (le_refl _)
    (List.getElem?_eq_some_iff.mp hd).1 hd) ho

omit [DecidableEq σ] in
/-- The index finds the owners. -/
lemma Planner.PlannerOk.finds {s : Planner δ} (h : PlannerOk e s) :
    Finds e (· ∈ s.owners) (leastOwner s.ownersByDigest) where
  sound d o hlook := by
    rw [leastOwner] at hlook
    split_ifs at hlook with hne
    exact (h.index d o).mp (some.inj hlook ▸ Finset.min'_mem _ hne)
  complete d o ho hd hnone := by
    rw [leastOwner, dif_pos ⟨o, (h.index d o).mpr ⟨ho, hd⟩⟩] at hnone
    cases hnone

/-- What a request gains when it waits for the other one. -/
def Gains (e : Setup σ δ) (p : Pass) (id o : ℕ) : Prop :=
  (e.minGainTokens : ℤ) ≤ (e.shared id o * e.unitTokens : ℕ) - ((p.probeContextReuse id).getD 0 : ℕ)

/-- No owner and no candidate before shares more units. -/
def Longest (e : Setup σ δ) (S C : ℕ → Prop) (id o : ℕ) : Prop :=
  (∀ o', S o' → e.shared id o' ≤ e.shared id o) ∧ ∀ c, C c → e.shared id c ≤ e.shared id o

/-- **The owner that a request waits for.** -/
lemma Planner.PlannerOk.ownerToWaitFor {s : Planner δ} (h : PlannerOk e s) {p : Pass}
    {passOwners : UMap δ ℕ} (hpass : Finds e C passOwners.find?)
    (ho : s.ownerToWaitFor e p passOwners id (e.fingerprints id) = some o) :
    Gains e p id o ∧ Longest e (· ∈ s.owners) C id o
    ∧ (o ∈ s.owners ∨ C o ∧ ∀ o' ∈ s.owners, e.shared id o' < e.shared id o) := by
  rw [Planner.ownerToWaitFor] at ho
  set units := ((s.deepestOwner (e.fingerprints id)).map Prod.snd).getD 0 with hunits
  have howners : ∀ o' ∈ s.owners, e.shared id o' ≤ units := by
    intro o' ho'
    cases hdeep : s.deepestOwner (e.fingerprints id) with
    | none =>
      rw [hunits, hdeep]
      exact h.finds.deepest_eq_none hdeep ho'
    | some r =>
      rw [hunits, hdeep]
      exact (h.finds.deepest_eq_some hdeep).2.2.2 o' ho'
  -- the tests after the search
  have hgain : ∀ r : ℕ × ℕ, e.shared id r.1 = r.2 →
      (if ((r.2 * e.unitTokens : ℕ) : ℤ) - ((p.probeContextReuse id).getD 0 : ℕ)
        < e.minGainTokens then none
        else if p.requestPrefixSnapshot r.1 (r.2 * e.unitTokens) then some r.1 else none) = some o →
      r.1 = o ∧ Gains e p id o := by
    intro r hr hsome
    split_ifs at hsome with hsmall hsnap
    obtain rfl := some.inj hsome
    refine ⟨rfl, ?_⟩
    rw [Gains, hr]
    exact not_lt.mp hsmall
  cases hfound : deepest passOwners.find? (e.fingerprints id) units (e.fingerprints id).length with
  | some r =>
    obtain ⟨hC, hlt, hshared, hall⟩ := hpass.deepest_eq_some hfound
    rw [hfound, some_or] at ho
    obtain ⟨rfl, hg⟩ := hgain r hshared ho
    refine ⟨hg, ⟨fun o' ho' => ?_, fun c hc => ?_⟩, .inr ⟨hC, fun o' ho' => ?_⟩⟩
    · exact hshared ▸ (howners o' ho').trans hlt.le
    · exact hshared ▸ hall c hc
    · exact hshared ▸ lt_of_le_of_lt (howners o' ho') hlt
  | none =>
    rw [hfound, none_or] at ho
    cases hdeep : s.deepestOwner (e.fingerprints id) with
    | none =>
      rw [hdeep] at ho
      cases ho
    | some r =>
      obtain ⟨howner, -, hshared, hall⟩ := h.finds.deepest_eq_some hdeep
      have hr : units = r.2 := by rw [hunits, hdeep]; rfl
      rw [hdeep] at ho
      obtain ⟨rfl, hg⟩ := hgain r hshared ho
      refine ⟨hg, ⟨fun o' ho' => hshared ▸ hall o' ho', fun c hc => ?_⟩, .inl howner⟩
      rw [hshared, ← hr]
      exact hpass.deepest_eq_none hfound hc

/-! ### The loop of a pass -/

omit [DecidableEq σ] in
lemma find?_setDefaults (id : ℕ) (ds : List δ) (passOwners : UMap δ ℕ) (d : δ) :
    (setDefaults id ds passOwners).find? d
      = (passOwners.find? d).or (if d ∈ ds then some id else none) := by
  induction ds generalizing passOwners with
  | nil => rw [if_neg not_mem_nil, or_none]; rfl
  | cons d' ds ih =>
    rw [setDefaults, foldl_cons, ← setDefaults, ih]
    by_cases hmem : d' ∈ passOwners
    · rw [if_pos hmem]
      by_cases hd : d = d'
      · subst hd
        obtain ⟨o, ho⟩ := mem_iff_find?.mp hmem
        rw [ho, some_or, some_or]
      · simp [hd]
    · rw [if_neg hmem, find?_assign]
      by_cases hd : d = d'
      · subst hd
        rw [if_pos rfl, find?_eq_none_iff.mpr hmem, if_pos mem_cons_self, some_or, none_or]
      · simp [hd]

/-- The id is that of a candidate among the requests. -/
def CandidateIn (p : Pass) (requests : List Request) (id : ℕ) : Prop :=
  ∃ r ∈ requests, p.isCandidate r = true ∧ r.id = id

/-- **A request that waits** for an owner, or for a candidate before it that shares more units than
any owner. -/
def Waits (e : Setup σ δ) (p : Pass) (S C : ℕ → Prop) (id : ℕ) (v : Option ℕ) : Prop :=
  (v = none ∧ ∃ o, S o ∧ Longest e S C id o ∧ Gains e p id o)
  ∨ ∃ c, v = some c ∧ C c ∧ (∀ o, S o → e.shared id o < e.shared id c) ∧ Longest e S C id c
    ∧ Gains e p id c

/-- What holds in the loop of `plan` after the requests in `done`. -/
structure LoopOk (e : Setup σ δ) (p : Pass) (s₀ : Planner δ) (done : List Request)
    (l : PlanLoop δ) : Prop where
  planner : PlannerOk e l.planner
  owners : l.planner.owners = s₀.owners
  before : l.planner.waitPasses = s₀.waitPasses
  passes : ∀ id, id ∈ l.waitPasses ↔ CandidateIn p done id
  counted : ∀ id n, l.waitPasses.find? id = some n →
    n = (s₀.waitPasses.find? id).getD 0 + if id ∈ l.waiting then 1 else 0
  bounded : ∀ id ∈ l.waiting, (s₀.waitPasses.find? id).getD 0 < MAX_WAIT_PASSES
  candidates : ∀ id ∈ l.waiting, id ∈ l.waitPasses
  passOwners : Finds e (fun c => CandidateIn p done c ∧ c ∉ l.waiting) l.passOwners.find?
  waits : ∀ id v, l.waiting.find? id = some v → ∃ pre r post, done = pre ++ r :: post
    ∧ r.id = id ∧ p.isCandidate r = true
    ∧ Waits e p (· ∈ s₀.owners) (fun c => CandidateIn p pre c ∧ c ∉ l.waiting) id v

variable {p : Pass} {s₀ : Planner δ} {done : List Request} {l : PlanLoop δ} {r : Request}

variable {passes : List Pass} {s : Planner δ}

lemma candidateIn_concat {id : ℕ} : CandidateIn p (done ++ [r]) id
    ↔ CandidateIn p done id ∨ p.isCandidate r = true ∧ r.id = id := by
  simp [CandidateIn, or_and_right, exists_or]

omit [DecidableEq σ] in
lemma Planner.PlannerOk.fingerprintsOf (h : PlannerOk e s) (id : ℕ) :
    (s.fingerprintsOf e id).1 = e.fingerprints id ∧ PlannerOk e (s.fingerprintsOf e id).2
    ∧ (s.fingerprintsOf e id).2.owners = s.owners
    ∧ (s.fingerprintsOf e id).2.waitPasses = s.waitPasses := by
  rw [Planner.fingerprintsOf]
  cases hfind : s.fingerprints.find? id with
  | some ds => exact ⟨h.cached id ds hfind, h, rfl, rfl⟩
  | none =>
    refine ⟨rfl, ⟨fun id' ds hds => ?_, fun id' hid' => ?_, h.index, h.nonempty⟩, rfl, rfl⟩
    · rw [find?_assign] at hds
      split_ifs at hds with heq
      · exact heq ▸ (some.inj hds).symm
      · exact h.cached id' ds hds
    · exact mem_assign.mpr (.inr (h.owned id' hid'))

section

variable (h : LoopOk e p s₀ done l) (hnew : r.id ∉ done.map Request.id)
include h hnew

/-- A request that comes once is not yet decided. -/
lemma LoopOk.fresh : r.id ∉ l.waitPasses ∧ r.id ∉ l.waiting := by
  have hpasses : r.id ∉ l.waitPasses := fun hmem => by
    obtain ⟨r', hr', -, hid⟩ := (h.passes r.id).mp hmem
    exact hnew (List.mem_map.mpr ⟨r', hr', hid⟩)
  exact ⟨hpasses, fun hmem => hpasses (h.candidates _ hmem)⟩

/-- A candidate that does not wait is one that others can wait for. -/
lemma LoopOk.goesOn (hr : p.isCandidate r = true) {planner : Planner δ} (hok : PlannerOk e planner)
    (howners : planner.owners = s₀.owners) (hbefore : planner.waitPasses = s₀.waitPasses) :
    LoopOk e p s₀ (done ++ [r]) ⟨planner, l.waiting,
      l.waitPasses.assign r.id ((s₀.waitPasses.find? r.id).getD 0),
      setDefaults r.id (e.fingerprints r.id) l.passOwners⟩ := by
  obtain ⟨hpasses, hwaiting⟩ := h.fresh hnew
  refine ⟨hok, howners, hbefore, fun id => ?_, fun id n hn => ?_, h.bounded, fun id hid => ?_, ?_,
    fun id v hv => ?_⟩
  · rw [mem_assign, h.passes id, candidateIn_concat, or_comm, and_iff_right hr, eq_comm]
  · rw [find?_assign] at hn
    split_ifs at hn with heq
    · subst heq
      rw [if_neg hwaiting, ← some.inj hn, add_zero]
    · exact h.counted id n hn
  · exact mem_assign.mpr (.inr (h.candidates id hid))
  · refine ⟨fun d o ho => ?_, fun d o ho hd hnone => ?_⟩
    · rw [find?_setDefaults] at ho
      rcases or_eq_some_iff.mp ho with ho | ⟨-, ho⟩
      · obtain ⟨⟨hcand, hnot⟩, hd⟩ := h.passOwners.sound d o ho
        exact ⟨⟨candidateIn_concat.mpr (.inl hcand), hnot⟩, hd⟩
      · split_ifs at ho with hd
        obtain rfl := some.inj ho
        exact ⟨⟨candidateIn_concat.mpr (.inr ⟨hr, rfl⟩), hwaiting⟩, hd⟩
    · rw [find?_setDefaults, or_eq_none_iff] at hnone
      rcases candidateIn_concat.mp ho.1 with hcand | ⟨-, rfl⟩
      · exact h.passOwners.complete d o ⟨hcand, ho.2⟩ hd hnone.1
      · rw [if_pos hd] at hnone
        exact absurd hnone.2 (some_ne_none _)
  · obtain ⟨pre, r', post, rfl, hwaits⟩ := h.waits id v hv
    exact ⟨pre, r', post ++ [r], by simp, hwaits⟩

/-- A candidate that waits. -/
lemma LoopOk.waitsFor
    (hr : p.isCandidate r = true) {planner : Planner δ} (hok : PlannerOk e planner)
    (howners : planner.owners = s₀.owners) (hbefore : planner.waitPasses = s₀.waitPasses)
    (hwaited : (s₀.waitPasses.find? r.id).getD 0 < MAX_WAIT_PASSES) {v : Option ℕ}
    (hv : Waits e p (· ∈ s₀.owners) (fun c => CandidateIn p done c ∧ c ∉ l.waiting) r.id v) :
    LoopOk e p s₀ (done ++ [r]) ⟨planner, l.waiting.assign r.id v,
      l.waitPasses.assign r.id ((s₀.waitPasses.find? r.id).getD 0 + 1), l.passOwners⟩ := by
  obtain ⟨hpasses, hwaiting⟩ := h.fresh hnew
  -- whoever was decided before `r` waits now if it waited then
  have hkept : ∀ {pre : List Request}, (∀ r' ∈ pre, r' ∈ done) →
      (fun c => CandidateIn p pre c ∧ c ∉ l.waiting.assign r.id v)
        = fun c => CandidateIn p pre c ∧ c ∉ l.waiting := by
    intro pre hpre
    funext c
    refine propext (and_congr_right fun hc => not_congr ?_)
    obtain ⟨r', hr', -, hid⟩ := hc
    rw [mem_assign, or_iff_right]
    rintro rfl
    exact hnew (List.mem_map.mpr ⟨r', hpre r' hr', hid⟩)
  refine ⟨hok, howners, hbefore, fun id => ?_, fun id n hn => ?_, fun id hid => ?_,
    fun id hid => ?_, ?_, fun id v' hv' => ?_⟩
  · rw [mem_assign, h.passes id, candidateIn_concat, or_comm, and_iff_right hr, eq_comm]
  · rw [find?_assign] at hn
    split_ifs at hn with heq
    · subst heq
      rw [if_pos (mem_assign.mpr (.inl rfl)), ← some.inj hn]
    · rw [h.counted id n hn]
      simp [mem_assign, heq]
  · rcases mem_assign.mp hid with rfl | hid
    · exact hwaited
    · exact h.bounded id hid
  · rcases mem_assign.mp hid with rfl | hid
    · exact mem_assign.mpr (.inl rfl)
    · exact mem_assign.mpr (.inr (h.candidates id hid))
  · have heq : (fun c => CandidateIn p (done ++ [r]) c ∧ c ∉ l.waiting.assign r.id v)
        = fun c => CandidateIn p done c ∧ c ∉ l.waiting := by
      rw [← hkept fun r' hr' => hr']
      funext c
      rw [candidateIn_concat, or_and_right]
      refine propext (or_iff_left ?_)
      rintro ⟨⟨-, rfl⟩, hnot⟩
      exact hnot (mem_assign.mpr (.inl rfl))
    rw [heq]
    exact h.passOwners
  · rw [find?_assign] at hv'
    split_ifs at hv' with heq
    · obtain rfl := some.inj hv'
      refine ⟨done, r, [], rfl, heq.symm, hr, ?_⟩
      rw [hkept fun r' hr' => hr', heq]
      exact hv
    · obtain ⟨pre, r', post, hsplit, hid, hcand, hwaits⟩ := h.waits id v' hv'
      refine ⟨pre, r', post ++ [r], by simp [hsplit], hid, hcand, ?_⟩
      rw [hkept fun x hx => hsplit ▸ mem_append_left _ hx]
      exact hwaits

end

/-- **One request of the loop.** -/
lemma LoopOk.planRequest (h : LoopOk e p s₀ done l) (hmap : ∀ o ∈ s₀.owners, o ∈ p.kvCacheMap)
    (hnew : r.id ∉ done.map Request.id) :
    LoopOk e p s₀ (done ++ [r]) (PrefixWait.planRequest e p l r) := by
  rw [PrefixWait.planRequest]
  cases hr : p.isCandidate r with
  | false =>
    have hsame : ∀ id, CandidateIn p (done ++ [r]) id ↔ CandidateIn p done id := fun id => by
      rw [candidateIn_concat, hr]
      simp
    refine ⟨h.planner, h.owners, h.before, fun id => (h.passes id).trans (hsame id).symm, h.counted,
      h.bounded, h.candidates, ?_, fun id v hv => ?_⟩
    · simp only [hsame]
      exact h.passOwners
    · obtain ⟨pre, r', post, rfl, hwaits⟩ := h.waits id v hv
      exact ⟨pre, r', post ++ [r], by simp, hwaits⟩
  | true =>
    obtain ⟨hfp, hok, howners, hbefore⟩ := h.planner.fingerprintsOf r.id
    rw [h.owners] at howners
    rw [h.before] at hbefore
    simp only [Bool.not_true, Bool.false_eq_true, if_false]
    rw [hfp, hbefore]
    cases howner : (if (s₀.waitPasses.find? r.id).getD 0 < MAX_WAIT_PASSES then
        (l.planner.fingerprintsOf e r.id).2.ownerToWaitFor e p l.passOwners r.id
          (e.fingerprints r.id)
        else none) with
    | none => exact h.goesOn hnew hr hok howners hbefore
    | some o =>
      split_ifs at howner with hwaited
      obtain ⟨hgains, hlongest, hwho⟩ := hok.ownerToWaitFor h.passOwners howner
      rw [howners] at hlongest hwho
      refine h.waitsFor hnew hr hok howners hbefore hwaited ?_
      rw [howners]
      rcases hwho with ho | ⟨hC, hlt⟩
      · rw [if_pos ho]
        exact .inl ⟨rfl, o, ho, hlongest, hgains⟩
      · -- a candidate has no cache, so it is no owner
        have hno : o ∉ s₀.owners := fun ho => by
          obtain ⟨r', -, hcand, rfl⟩ := hC.1
          rw [Pass.isCandidate] at hcand
          simp only [Bool.and_eq_true, decide_eq_true_eq] at hcand
          exact hcand.1.1.2 (hmap _ ho)
        rw [if_neg hno]
        exact .inr ⟨o, rfl, hC, hlt, hlongest, hgains⟩

lemma LoopOk.foldl (hmap : ∀ o ∈ s₀.owners, o ∈ p.kvCacheMap) (rest : List Request)
    (h : LoopOk e p s₀ done l) (hrequests : p.requests = done ++ rest) :
    LoopOk e p s₀ p.requests (rest.foldl (PrefixWait.planRequest e p) l) := by
  induction rest generalizing done l with
  | nil =>
    rw [append_nil] at hrequests
    exact hrequests ▸ h
  | cons r rest ih =>
    have hnew : r.id ∉ done.map Request.id := by
      have hnodup := p.nodup
      rw [hrequests, map_append, map_cons, nodup_append] at hnodup
      exact fun hmem => hnodup.2.2 _ hmem _ mem_cons_self rfl
    exact ih (h.planRequest hmap hnew) (by simpa using hrequests)

/-! ### A pass -/

/-- An owner that still prefills. -/
def Prefills (p : Pass) (s : Planner δ) (o : ℕ) : Prop := o ∈ s.owners ∧ ¬ Finished p o

/-- What a pass returns and leaves. -/
structure Planned (e : Setup σ δ) (p : Pass) (s : Planner δ) (waiting : UMap ℕ (Option ℕ))
    (s' : Planner δ) : Prop where
  planner : PlannerOk e s'
  passes : ∀ id, id ∈ s'.waitPasses ↔ CandidateIn p p.requests id
  counted : ∀ id n, s'.waitPasses.find? id = some n →
    n = (s.waitPasses.find? id).getD 0 + if id ∈ waiting then 1 else 0
  bounded : ∀ id ∈ waiting, (s.waitPasses.find? id).getD 0 < MAX_WAIT_PASSES
  candidates : ∀ id ∈ waiting, CandidateIn p p.requests id
  waits : ∀ id v, waiting.find? id = some v → ∃ pre r post, p.requests = pre ++ r :: post
    ∧ r.id = id ∧ p.isCandidate r = true
    ∧ Waits e p (Prefills p s) (fun c => CandidateIn p pre c ∧ c ∉ waiting) id v

/-- **What one pass does.** -/
lemma Planner.PlannerOk.plan (h : PlannerOk e s) (p : Pass) :
    Planned e p s (PrefixWait.plan e p s).1 (PrefixWait.plan e p s).2 := by
  obtain ⟨hok, howners, hpasses⟩ := h.dropFinishedOwners p
  have hprefills : (· ∈ (s.dropFinishedOwners p).owners) = Prefills p s :=
    funext fun o => propext (howners o)
  have hstart : LoopOk e p (s.dropFinishedOwners p) [] ⟨s.dropFinishedOwners p, ∅, ∅, ∅⟩ := by
    refine ⟨hok, rfl, rfl, fun id => ?_, fun id n hn => ?_, fun id hid => ?_, fun id hid => ?_,
      ⟨fun d o ho => ?_, fun d o ho => ?_⟩, fun id v hv => ?_⟩
    · exact iff_of_false (not_mem_empty id) fun ⟨r, hr, _⟩ => absurd hr not_mem_nil
    · rw [find?_empty] at hn
      cases hn
    · exact absurd hid (not_mem_empty id)
    · exact absurd hid (not_mem_empty id)
    · rw [find?_empty] at ho
      cases ho
    · obtain ⟨⟨r, hr, -⟩, -⟩ := ho
      exact absurd hr not_mem_nil
    · rw [find?_empty] at hv
      cases hv
  have hmap : ∀ o ∈ (s.dropFinishedOwners p).owners, o ∈ p.kvCacheMap := fun o ho => by
    have hnot := ((howners o).mp ho).2
    rw [Finished, not_or, not_not] at hnot
    exact hnot.2
  have hloop := LoopOk.foldl hmap p.requests hstart (nil_append _).symm
  rw [PrefixWait.plan]
  set l := p.requests.foldl (PrefixWait.planRequest e p) ⟨s.dropFinishedOwners p, ∅, ∅, ∅⟩
  refine ⟨⟨fun id ds hds => ?_, fun id hid => ?_, hloop.planner.index, hloop.planner.nonempty⟩,
    hloop.passes, hpasses ▸ hloop.counted, hpasses ▸ hloop.bounded,
    fun id hid => (hloop.passes id).mp (hloop.candidates id hid), hprefills ▸ hloop.waits⟩
  · rw [UMap.find?_filter] at hds
    obtain ⟨hds, -⟩ := filter_eq_some_iff.mp hds
    exact hloop.planner.cached id ds hds
  · obtain ⟨ds, hds⟩ := mem_iff_find?.mp (hloop.planner.owned id hid)
    refine mem_iff_find?.mpr ⟨ds, ?_⟩
    rw [UMap.find?_filter]
    exact filter_eq_some_iff.mpr ⟨hds, decide_eq_true (.inr hid)⟩

/-! ### Runs -/

/-- A call of the scheduler. -/
inductive Call where
  | plan (p : Pass)
  | addOwner (id : ℕ)

/-- One call; a pass returns the requests that wait. -/
def step (e : Setup σ δ) (s : Planner δ) : Call → List (UMap ℕ (Option ℕ)) × Planner δ
  | .plan p => ([(PrefixWait.plan e p s).1], (PrefixWait.plan e p s).2)
  | .addOwner id => ([], s.addOwner id)

/-- The passes of a run. -/
def passesOf : List Call → List Pass := filterMap fun
  | .plan p => some p
  | .addOwner _ => none

/-- The number of passes in which a request waits. -/
def waitCount (id : ℕ) (out : List (UMap ℕ (Option ℕ))) : ℕ :=
  out.countP fun waiting => id ∈ waiting

/-- A request is a candidate of consecutive passes only: between two passes that have it as a
candidate there is none without it. -/
def Unbroken (passes : List Pass) : Prop :=
  ∀ (id i j k : ℕ) (p q r : Pass), i < j → j < k → passes[i]? = some p → passes[j]? = some q →
    passes[k]? = some r →
    CandidateIn p p.requests id → CandidateIn r r.requests id → CandidateIn q q.requests id

omit [DecidableEq σ] in
lemma Unbroken.of_concat {p : Pass} (h : Unbroken (passes ++ [p])) : Unbroken passes := by
  have hget : ∀ {i : ℕ} {q : Pass}, passes[i]? = some q → (passes ++ [p])[i]? = some q :=
    fun hi => by
    rw [getElem?_append_left (List.getElem?_eq_some_iff.mp hi).1]
    exact hi
  exact fun id i j k a b c hij hjk ha hb hc =>
    h id i j k a b c hij hjk (hget ha) (hget hb) (hget hc)

lemma plannerOk_run (e : Setup σ δ) (calls : List Call) :
    PlannerOk e (Machine.run (step e) (Planner.new δ) calls).2 :=
  Machine.run_invariant (I := PlannerOk e) (plannerOk_new e) (fun s call h => by
    cases call with
    | plan p => exact (h.plan p).planner
    | addOwner id => exact h.addOwner id) calls

/-- How often a request has waited, and what the planner knows of it. -/
structure Budget (id : ℕ) (passes : List Pass) (count : ℕ) (s : Planner δ) : Prop where
  bounded : count ≤ MAX_WAIT_PASSES
  counted : ∀ n, s.waitPasses.find? id = some n → n = count
  last : id ∈ s.waitPasses ↔ ∃ p, passes.getLast? = some p ∧ CandidateIn p p.requests id
  never : (∀ p ∈ passes, ¬ CandidateIn p p.requests id) → count = 0

omit [DecidableEq δ] in
/-- A candidate that the last pass did not have was never one. -/
lemma Budget.never_before {count : ℕ} (h : Budget id passes count s)
    (hunbroken : Unbroken (passes ++ [p])) (hp : CandidateIn p p.requests id)
    (hid : id ∉ s.waitPasses) : ∀ q ∈ passes, ¬ CandidateIn q q.requests id := by
  intro q hq hcand
  obtain ⟨i, hi⟩ := mem_iff_getElem?.mp hq
  have hlen := (List.getElem?_eq_some_iff.mp hi).1
  obtain ⟨last, hlast⟩ : ∃ last, passes[passes.length - 1]? = some last :=
    ⟨_, getElem?_eq_getElem (by omega)⟩
  have hnot : ¬ CandidateIn last last.requests id := fun hc =>
    hid (h.last.mpr ⟨last, by rw [getLast?_eq_getElem?]; exact hlast, hc⟩)
  have hne : i ≠ passes.length - 1 := fun heq => by
    rw [heq, hlast] at hi
    exact hnot (some.inj hi ▸ hcand)
  refine hnot
    (hunbroken id i (passes.length - 1) passes.length q last p (by omega) (by omega) ?_ ?_ ?_
    hcand hp)
  · rw [getElem?_append_left hlen]
    exact hi
  · rw [getElem?_append_left (by omega)]
    exact hlast
  · rw [getElem?_append_right (le_refl _), Nat.sub_self]
    rfl

lemma Budget.plan {count : ℕ} {s' : Planner δ} {waiting : UMap ℕ (Option ℕ)}
    (h : Budget id passes count s) (hunbroken : Unbroken (passes ++ [p]))
    (hplan : Planned e p s waiting s') :
    Budget id (passes ++ [p]) (count + if id ∈ waiting then 1 else 0) s' := by
  -- what the planner counted is the number of passes, if the request is a candidate again
  have hwaited : CandidateIn p p.requests id → (s.waitPasses.find? id).getD 0 = count := by
    intro hp
    cases hfind : s.waitPasses.find? id with
    | some n => exact h.counted n hfind
    | none => exact (h.never (h.never_before hunbroken hp (find?_eq_none_iff.mp hfind))).symm
  refine ⟨?_, fun n hn => ?_, ?_, fun hnever => ?_⟩
  · split_ifs with hid
    · have hlt := hplan.bounded id hid
      rw [hwaited (hplan.candidates id hid)] at hlt
      exact hlt
    · exact h.bounded
  · rw [hplan.counted id n hn, hwaited ((hplan.passes id).mp (mem_of_find? hn))]
  · rw [hplan.passes id, getLast?_concat]
    simp
  · have hp : ¬ CandidateIn p p.requests id := hnever p (by simp)
    rw [if_neg fun hid => hp (hplan.candidates id hid), add_zero]
    exact h.never fun q hq => hnever q (mem_append_left _ hq)

/-- **The budget over a run.** -/
lemma budget_run (e : Setup σ δ) (id : ℕ) (calls : List Call) (h : Unbroken (passesOf calls)) :
    Budget id (passesOf calls) (waitCount id (Machine.run (step e) (Planner.new δ) calls).1)
      (Machine.run (step e) (Planner.new δ) calls).2 := by
  induction calls using reverseRecOn with
  | nil =>
    refine ⟨Nat.zero_le _, fun n hn => ?_, ?_, fun _ => rfl⟩
    · rw [Machine.run_nil, Planner.new, find?_empty] at hn
      cases hn
    · refine iff_of_false (not_mem_empty id) ?_
      rintro ⟨p, hp, -⟩
      cases hp
  | append_singleton calls call ih =>
    rw [Machine.run_concat]
    cases call with
    | plan p =>
      have hpasses : passesOf (calls ++ [.plan p]) = passesOf calls ++ [p] := by
        rw [passesOf, filterMap_append]
        rfl
      rw [hpasses] at h ⊢
      have hcount : ∀ out : List (UMap ℕ (Option ℕ)), ∀ waiting, waitCount id (out ++ [waiting])
          = waitCount id out + if id ∈ waiting then 1 else 0 := fun out waiting => by
        rw [waitCount, countP_append, ← waitCount, countP_singleton]
        simp only [decide_eq_true_eq]
      rw [step, hcount]
      exact (ih h.of_concat).plan h ((plannerOk_run e calls).plan p)
    | addOwner o =>
      have hpasses : passesOf (calls ++ [.addOwner o]) = passesOf calls := by
        rw [passesOf, filterMap_append]
        exact append_nil _
      rw [hpasses] at h ⊢
      rw [step, append_nil]
      have hsame : ∀ s : Planner δ, (s.addOwner o).waitPasses = s.waitPasses := fun s => by
        rw [Planner.addOwner]
        split
        · rfl
        · split_ifs
          · rfl
          · rfl
      obtain ⟨hbounded, hcounted, hlast, hnever⟩ := ih h
      refine ⟨hbounded, fun n hn => hcounted n ?_, ?_, hnever⟩
      · rwa [hsame] at hn
      · rw [hsame]
        exact hlast

/-- **Prefix waits.**  In every run in which no request leaves the candidates and comes back, the
index is the inverse of the owners' digests; every pass keeps a request for an owner that still
prefills and shares its longest prefix, or for a candidate before it that does not wait and shares
more units than any owner, and what it waits for is worth the minimum gain; and no request waits in
more than `MAX_WAIT_PASSES` passes. -/
theorem plan_waits (e : Setup σ δ) (calls : List Call) (h : Unbroken (passesOf calls)) :
    (∀ d id, id ∈ ownersOf (Machine.run (step e) (Planner.new δ) calls).2.ownersByDigest d
      ↔ id ∈ (Machine.run (step e) (Planner.new δ) calls).2.owners ∧ d ∈ e.fingerprints id)
    ∧ (∀ d ids, (Machine.run (step e) (Planner.new δ) calls).2.ownersByDigest.find? d = some ids →
      ids.Nonempty)
    ∧ (∀ (p : Pass) id v,
      (PrefixWait.plan e p (Machine.run (step e) (Planner.new δ) calls).2).1.find? id = some v →
      ∃ pre r post, p.requests = pre ++ r :: post ∧ r.id = id ∧ p.isCandidate r = true
        ∧ Waits e p (Prefills p (Machine.run (step e) (Planner.new δ) calls).2)
          (fun c => CandidateIn p pre c
            ∧ c ∉ (PrefixWait.plan e p (Machine.run (step e) (Planner.new δ) calls).2).1) id v)
    ∧ ∀ id, waitCount id (Machine.run (step e) (Planner.new δ) calls).1 ≤ MAX_WAIT_PASSES := by
  have hok := plannerOk_run e calls
  exact ⟨hok.index, hok.nonempty, fun p id v hv => (hok.plan p).waits id v hv,
    fun id => (budget_run e id calls h).bounded⟩

/-! ### A request that comes back -/

/-- Digests that keep what they are of. -/
def listDigests : Digests ℕ (ℕ × List (List ℤ)) where
  seed s := (s, [])
  chain d u := (d.1, d.2 ++ [u])
  injective {s s' us us'} h := by
    have hfold : ∀ (us : List (List ℤ)) (d : ℕ × List (List ℤ)),
        us.foldl (fun d u => (d.1, d.2 ++ [u])) d = (d.1, d.2 ++ us) := by
      intro us
      induction us with
      | nil => simp
      | cons u us ih => simp [ih]
    rw [hfold, hfold] at h
    simpa using h

/-- One token in a block; request 2 has the prompt of request 1. -/
def twinPrompts : Setup ℕ (ℕ × List (List ℤ)) :=
  ⟨listDigests, 1, fun _ => 0, fun _ => replicate 73 7⟩

/-- A pass over new requests, while request 1 may have a cache. -/
def twinPass (ids : List ℕ) (h : ids.Nodup) (cached : Finset ℕ) : Pass where
  requests := ids.map fun id => ⟨id, true, false, false⟩
  kvCacheMap := cached
  contextRemainingLength _ := 1
  probeContextReuse _ := none
  requestPrefixSnapshot _ _ := true
  nodup := by
    rw [List.map_map]
    exact (List.map_id ids).symm ▸ h

theorem plan_waits_twins : waitCount 2 (Machine.run (step twinPrompts) (Planner.new _)
      [.plan (twinPass [1, 2] (by decide) ∅), .addOwner 1, .plan (twinPass [2] (by decide) {1})]).1
        = 2
    ∧ waitCount 2 (Machine.run (step twinPrompts) (Planner.new _)
      [.plan (twinPass [1, 2] (by decide) ∅), .addOwner 1, .plan (twinPass [2] (by decide) {1})]).1
        ≤ MAX_WAIT_PASSES := by
  refine ⟨by decide, (plan_waits twinPrompts _ ?_).2.2.2 2⟩
  intro id i j k p q r hij hjk hp hq hr
  have hk : k < 2 := (List.getElem?_eq_some_iff.mp hr).1
  omega

/-- Request 1 is admitted and prefills. -/
def admission : List Call :=
  [.plan (twinPass [1] (by decide) ∅), .addOwner 1, .plan (twinPass [1] (by decide) {1})]

/-- Request 2 waits in one pass and is not in the list of the next one. -/
def comeAndGo : List Call :=
  [.plan (twinPass [2] (by decide) {1}), .plan (twinPass [1] (by decide) {1})]

/-- After the two passes the planner is where it was. -/
lemma run_comeAndGo :
    Machine.run (step twinPrompts) (Machine.run (step twinPrompts) (Planner.new _) admission).2
      comeAndGo
      = ([⟨[(2, none)], by decide⟩, ∅],
        (Machine.run (step twinPrompts) (Planner.new _) admission).2) := rfl

lemma waitCount_comeAndGo (n : ℕ) :
    waitCount 2
      (Machine.run (step twinPrompts) (Machine.run (step twinPrompts) (Planner.new _) admission).2
      (replicate n comeAndGo).flatten).1 = n := by
  induction n with
  | zero => rfl
  | succ n ih =>
    rw [replicate_succ, flatten_cons, Machine.run_append, run_comeAndGo, waitCount,
      countP_append, ← waitCount, ← waitCount, ih]
    exact add_comm 1 n

/-- **A request that leaves the list for a pass loses the count of its waits**, and can wait in more
than `MAX_WAIT_PASSES` passes. -/
theorem plan_waits_again : ¬ ∀ (calls : List Call) (id : ℕ),
      waitCount id (Machine.run (step twinPrompts) (Planner.new _) calls).1 ≤ MAX_WAIT_PASSES := by
  intro h
  have hcount := h (admission ++ (replicate 129 comeAndGo).flatten) 2
  rw [Machine.run_append, waitCount, countP_append, ← waitCount, ← waitCount,
    waitCount_comeAndGo] at hcount
  exact absurd ((Nat.le_add_left _ _).trans hcount) (by decide)

end TrtLlm.PrefixWait
