import Mathlib

/-!
# The barrier chain

All barriers that have been initialised and not yet destroyed are on a chain, so that they can
be destroyed when the program ends. The chain is meant to be a circular doubly linked list with
pointers to its first and its last barrier. A barrier is added at the end, and removed from
wherever it is.

Barriers are told apart by their addresses, which may be of any type. What a barrier contains
before it is initialised is arbitrary.
-/

namespace Xdd.Barrier

/-- What the chain uses of `struct xdd_barrier`; `initialized` is a bit of `flags`. -/
structure Cell (α : Type*) where
  prev : Option α
  next : Option α
  initialized : Bool
  counter : Int
deriving DecidableEq, Repr

/-- What the chain uses of `xdd_plan_t`, and the barriers in memory. -/
structure Plan (α : Type*) where
  first : Option α
  last : Option α
  count : Int
  barrier : α → Cell α

variable {α : Type*} [DecidableEq α]

namespace Plan

def setBarrier (p : Plan α) (b : α) (barrier : Cell α) : Plan α :=
  { p with barrier := Function.update p.barrier b barrier }

/-- `bp->prev_barrier = prev` -/
def setPrev (p : Plan α) (b : α) (prev : Option α) : Plan α :=
  p.setBarrier b { p.barrier b with prev := prev }

/-- `bp->next_barrier = next` -/
def setNext (p : Plan α) (b : α) (next : Option α) : Plan α :=
  p.setBarrier b { p.barrier b with next := next }

/-- `xdd_init_barrier_chain` -/
def xddInitBarrierChain (memory : α → Cell α) : Plan α where
  first := none
  last := none
  count := 0
  barrier := memory

/-- `xdd_init_barrier`; `none` if it follows a null pointer. -/
def xddInitBarrier (p : Plan α) (b : α) : Option (Plan α) :=
  let p := p.setBarrier b { p.barrier b with initialized := true, counter := 0 }
  if p.count = 0 then
    let p := { p with first := some b, last := some b }
    let p := (p.setPrev b (some b)).setNext b (some b)
    some { p with count := p.count + 1 }
  else
    let p := (p.setNext b p.first).setPrev b p.last
    match p.last with
    | none => none
    | some last =>
      let p := p.setNext last (some b)
      some { p with last := some b, count := p.count + 1 }

/-- The links around a barrier that is not the only one. -/
def unlink (p : Plan α) (b : α) : Plan α :=
  let p := if p.first = some b then { p with first := (p.barrier b).next } else p
  let p := if p.last = some b then { p with last := (p.barrier b).prev } else p
  let p :=
    match (p.barrier b).prev with
    | some prev => p.setNext prev (p.barrier b).next
    | none => p
  match (p.barrier b).next with
  | some next => p.setPrev next (p.barrier b).prev
  | none => p

/-- `xdd_destroy_barrier` -/
def xddDestroyBarrier (p : Plan α) (b : α) : Plan α :=
  if (p.barrier b).initialized = false then p
  else
    let p := p.setBarrier b { p.barrier b with initialized := false }
    if (p.barrier b).counter = -1 then p
    else
      let p := p.setBarrier b { p.barrier b with counter := -1 }
      let p := if p.count = 1 then { p with first := none, last := none } else p.unlink b
      let p := (p.setPrev b none).setNext b none
      { p with count := p.count - 1 }

/-- `xdd_destroy_all_barriers`, for at most this many rounds of its loop. -/
def xddDestroyAllBarriers : Nat → Plan α → Option (Plan α)
  | 0, _ => none
  | fuel + 1, p =>
    match p.first with
    | none => some p
    | some b => xddDestroyAllBarriers fuel (p.xddDestroyBarrier b)

end Plan

inductive Call (α : Type*) where
  | init (b : α)
  | destroy (b : α)
deriving DecidableEq, Repr

def step (p : Plan α) : Call α → Option (Plan α)
  | .init b => p.xddInitBarrier b
  | .destroy b => some (p.xddDestroyBarrier b)

def run (calls : List (Call α)) (p : Plan α) : Option (Plan α) :=
  calls.foldlM step p

/-! ## What the chain is for -/

/-- The barriers that are initialised and not destroyed, in the order of their insertion. -/
def live : List (Call α) → List α :=
  List.foldl (fun l call =>
    match call with
    | .init b => l ++ [b]
    | .destroy b => l.erase b) []

/-- A barrier is initialised when it is not on the chain, and destroyed when it is. -/
def Call.Legal (l : List α) : Call α → Prop
  | .init b => b ∉ l
  | .destroy b => b ∈ l

instance (l : List α) : (call : Call α) → Decidable (call.Legal l)
  | .init b => inferInstanceAs (Decidable (b ∉ l))
  | .destroy b => inferInstanceAs (Decidable (b ∈ l))

/-- Calls that respect this. -/
structure History (α : Type*) [DecidableEq α] where
  calls : List (Call α)
  legal : ∀ before call, before ++ [call] <+: calls → call.Legal (live before)

/-- The documented circular list with these members. -/
structure IsChain (p : Plan α) (l : List α) : Prop where
  count : p.count = l.length
  first : p.first = l.head?
  last : p.last = l.getLast?
  next : ∀ i b, l[i]? = some b → (p.barrier b).next = l[(i + 1) % l.length]?
  prev : ∀ i b, l[(i + 1) % l.length]? = some b → i < l.length → (p.barrier b).prev = l[i]?

/-- After these calls the chain is what it should be, and it can be destroyed. -/
def Intact (memory : α → Cell α) (calls : List (Call α)) : Prop :=
  ∃ p, run calls (.xddInitBarrierChain memory) = some p ∧ IsChain p (live calls) ∧
    ∃ fuel p', p.xddDestroyAllBarriers fuel = some p' ∧ IsChain p' []

theorem live_init (calls : List (Call α)) (b : α) :
    live (calls ++ [.init b]) = live calls ++ [b] := by
  simp [live]

theorem live_destroy (calls : List (Call α)) (b : α) :
    live (calls ++ [.destroy b]) = (live calls).erase b := by
  simp [live]

theorem run_concat (calls : List (Call α)) (call : Call α) (p : Plan α) :
    run (calls ++ [call]) p = (run calls p).bind fun p => step p call := by
  simp [run, List.foldlM_append]

/-! ## A second barrier -/

omit [DecidableEq α] in
/-- The first barrier points back to the last one. -/
theorem IsChain.first_prev {p : Plan α} {a : α} {rest : List α} (h : IsChain p (a :: rest)) :
    (p.barrier a).prev = (a :: rest).getLast? := by
  have hprev := h.prev rest.length a (by simp) (by simp)
  rw [hprev, List.getLast?_eq_getElem?]
  simp

/-- Adding a barrier to others changes no backward link but its own. -/
theorem xddInitBarrier_prev {p p' : Plan α} {a b : α} (hcount : p.count ≠ 0) (hne : a ≠ b)
    (hs : p.xddInitBarrier b = some p') : (p'.barrier a).prev = (p.barrier a).prev := by
  unfold Plan.xddInitBarrier at hs
  simp only [Plan.setBarrier, Plan.setPrev, Plan.setNext, hcount, if_false] at hs
  split at hs
  · cases hs
  · next last hlast =>
    cases hs
    by_cases hal : a = last
    · subst hal
      simp [hne]
    · simp [hal, hne]

/-- The first barrier goes on pointing back to the one that was the last before. -/
theorem not_isChain_of_init {p p' : Plan α} {l : List α} {b : α} (h : IsChain p l)
    (hne : l ≠ []) (hb : b ∉ l) (hs : p.xddInitBarrier b = some p') :
    ¬ IsChain p' (l ++ [b]) := by
  intro h'
  cases l with
  | nil => exact hne rfl
  | cons a rest =>
    have hcount : p.count ≠ 0 := by
      rw [h.count, List.length_cons]
      omega
    have hab : a ≠ b := by
      rintro rfl
      exact hb List.mem_cons_self
    have hchain : IsChain p' (a :: (rest ++ [b])) := h'
    have hlast := hchain.first_prev
    rw [← List.cons_append, List.getLast?_concat] at hlast
    have hsame := xddInitBarrier_prev hcount hab hs
    rw [h.first_prev, hlast] at hsame
    exact hb (List.mem_of_getLast? hsame.symm)

/-! ## One barrier at a time -/

/-- At most one barrier, which points to itself. -/
inductive Lone (p : Plan α) : List α → Prop where
  | none (hfirst : p.first = none) (hlast : p.last = none) (hcount : p.count = 0) : Lone p []
  | one (b : α) (hfirst : p.first = some b) (hlast : p.last = some b) (hcount : p.count = 1)
      (hbarrier : p.barrier b = ⟨some b, some b, true, 0⟩) : Lone p [b]

namespace Lone

variable {p : Plan α} {l : List α}

omit [DecidableEq α] in
theorem isChain (h : Lone p l) : IsChain p l := by
  cases h with
  | none hfirst hlast hcount =>
    exact ⟨hcount, hfirst, hlast, by simp, by simp⟩
  | one b hfirst hlast hcount hbarrier =>
    refine ⟨hcount, hfirst, hlast, ?_, ?_⟩
    · intro i b' hi
      obtain ⟨rfl, rfl⟩ : i = 0 ∧ b = b' := by simpa [List.getElem?_singleton] using hi
      simp [hbarrier]
    · intro i b' hb' hi
      obtain rfl : i = 0 := by simpa using hi
      obtain rfl : b = b' := by simpa using hb'
      simp [hbarrier]

/-- The first barrier of an empty chain. -/
theorem init (h : Lone p []) (b : α) : ∃ p', p.xddInitBarrier b = some p' ∧ Lone p' [b] := by
  cases h with
  | none hfirst hlast hcount =>
    refine ⟨⟨some b, some b, 1, Function.update p.barrier b ⟨some b, some b, true, 0⟩⟩, ?_, ?_⟩
    · simp [Plan.xddInitBarrier, Plan.setBarrier, Plan.setPrev, Plan.setNext, hcount]
    · exact .one b rfl rfl rfl (Function.update_self ..)

/-- Its only barrier is destroyed. -/
theorem destroy {b : α} (h : Lone p [b]) : Lone (p.xddDestroyBarrier b) [] := by
  cases h with
  | one _ hfirst hlast hcount hbarrier =>
    unfold Plan.xddDestroyBarrier
    refine .none ?_ ?_ ?_ <;>
      simp [hbarrier, hcount, Plan.setBarrier, Plan.setPrev, Plan.setNext]

theorem destroyAll (h : Lone p l) :
    ∃ fuel p', p.xddDestroyAllBarriers fuel = some p' ∧ IsChain p' [] := by
  have hnone : ∀ {q : Plan α}, Lone q [] → q.xddDestroyAllBarriers 1 = some q := by
    intro q hq
    cases hq with
    | none hfirst => simp [Plan.xddDestroyAllBarriers, hfirst]
  cases l with
  | nil => exact ⟨1, p, hnone h, h.isChain⟩
  | cons b rest =>
    have hfirst : p.first = some b := h.isChain.first
    obtain rfl : rest = [] := by
      cases h
      rfl
    refine ⟨2, p.xddDestroyBarrier b, ?_, h.destroy.isChain⟩
    rw [Plan.xddDestroyAllBarriers, hfirst]
    exact hnone h.destroy

/-- One call, if no barrier is added to another one. -/
theorem step (h : Lone p l) {call : Call α} (hlegal : call.Legal l)
    (halone : ∀ b, call = .init b → l = []) :
    ∃ p', Barrier.step p call = some p' ∧ Lone p' (match call with
      | .init b => l ++ [b]
      | .destroy b => l.erase b) := by
  cases call with
  | init b =>
    obtain rfl := halone b rfl
    exact h.init b
  | destroy b =>
    refine ⟨_, rfl, ?_⟩
    cases h with
    | none => cases hlegal
    | one b' hfirst hlast hcount hbarrier =>
      obtain rfl : b = b' := List.mem_singleton.mp hlegal
      simpa using (Lone.one b hfirst hlast hcount hbarrier).destroy

end Lone

/-- The chain is intact after every call exactly if no barrier is initialised while another one
is on the chain. -/
theorem intact_iff (memory : α → Cell α) (history : History α) :
    (∀ calls, calls <+: history.calls → Intact memory calls) ↔
      ∀ before b, before ++ [.init b] <+: history.calls → live before = [] := by
  constructor
  · intro hall before b hprefix
    by_contra hne
    obtain ⟨p, hrun, hchain, -⟩ := hall before ((List.prefix_append _ _).trans hprefix)
    obtain ⟨p', hrun', hchain', -⟩ := hall _ hprefix
    rw [run_concat, hrun] at hrun'
    rw [live_init] at hchain'
    exact not_isChain_of_init hchain hne (history.legal before (.init b) hprefix) hrun' hchain'
  · intro halone
    suffices hlone : ∀ calls, calls <+: history.calls →
        ∃ p, run calls (.xddInitBarrierChain memory) = some p ∧ Lone p (live calls) by
      intro calls hprefix
      obtain ⟨p, hrun, hp⟩ := hlone calls hprefix
      exact ⟨p, hrun, hp.isChain, hp.destroyAll⟩
    intro calls
    induction calls using List.reverseRecOn with
    | nil =>
      intro _
      exact ⟨_, rfl, .none rfl rfl rfl⟩
    | append_singleton calls call ih =>
      intro hprefix
      obtain ⟨p, hrun, hp⟩ := ih ((List.prefix_append _ _).trans hprefix)
      obtain ⟨p', hstep, hp'⟩ := hp.step (history.legal calls call hprefix) (by
        rintro b rfl
        exact halone calls b hprefix)
      refine ⟨p', by rw [run_concat, hrun]; exact hstep, ?_⟩
      cases call with
      | init b => rwa [live_init]
      | destroy b => rwa [live_destroy]

/-! ## What becomes of a longer chain -/

/-- A barrier that is destroyed and still the first one is destroyed for ever. -/
theorem destroyAll_stuck {p : Plan α} {b : α} (hfirst : p.first = some b)
    (hdestroyed : (p.barrier b).initialized = false) (fuel : Nat) :
    p.xddDestroyAllBarriers fuel = none := by
  induction fuel with
  | zero => rfl
  | succ fuel ih =>
    rw [Plan.xddDestroyAllBarriers, hfirst]
    change (p.xddDestroyBarrier b).xddDestroyAllBarriers fuel = none
    rw [Plan.xddDestroyBarrier, if_pos hdestroyed]
    exact ih

def cleared : Cell (Fin 4) := ⟨none, none, false, 0⟩

/-- Three barriers, of which the last one is replaced, and then the first one is destroyed. -/
def replaced : List (Call (Fin 4)) :=
  [.init 0, .init 1, .init 2, .destroy 2, .init 3, .destroy 0]

/-- With two barriers the first one does not point back to the last one; later the loop that
destroys all of them does not end. -/
theorem chain_broken : ¬ Intact (fun _ => cleared) [.init 0, .init 1] ∧
    ∃ p, run replaced (.xddInitBarrierChain fun _ => cleared) = some p ∧
      ∀ fuel, p.xddDestroyAllBarriers fuel = none := by
  constructor
  · rintro ⟨p, hrun, hchain, -⟩
    have hprev : (run [.init 0, .init 1] (.xddInitBarrierChain fun _ => cleared)).map
        (fun p => (p.barrier 0).prev) = some (some 0) := by decide
    rw [hrun] at hprev
    have hback : (p.barrier 0).prev = some 0 := Option.some.inj hprev
    have hlast : (p.barrier 0).prev = some 1 := hchain.first_prev
    rw [hback] at hlast
    cases hlast
  · obtain ⟨p, hrun⟩ : ∃ p, run replaced (.xddInitBarrierChain fun _ => cleared) = some p := by
      apply Option.isSome_iff_exists.mp
      decide
    have hstuck : (run replaced (.xddInitBarrierChain fun _ => cleared)).map (fun p =>
        (p.first, (p.xddDestroyBarrier 1).first,
          ((p.xddDestroyBarrier 1).barrier 1).initialized)) = some (some 1, some 1, false) := by
      decide
    rw [hrun] at hstuck
    simp only [Option.map_some, Option.some.injEq, Prod.mk.injEq] at hstuck
    refine ⟨p, hrun, ?_⟩
    intro fuel
    cases fuel with
    | zero => rfl
    | succ fuel =>
      rw [Plan.xddDestroyAllBarriers, hstuck.1]
      exact destroyAll_stuck hstuck.2.1 hstuck.2.2 fuel

end Xdd.Barrier
