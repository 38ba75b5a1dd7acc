import Xdd.Library.Links

/-!
# The rings that the lockstep options build

Each `-lockstep` or `-lockstepoverlapped` option names a master and a slave. In phase 1 the
slave is put behind the master in the ring of `ls_next_tdp` pointers, wherever it has been
before. The master of the very first option is the target that starts.

A slave that is in a ring already is not taken out of it. If the options name no target as a
slave twice, the link to it that is left never goes away; a target that is a slave again may
lose it, and a later option can so make good what an earlier one has done.

Targets are told apart by their numbers, which may be of any type.
-/

namespace Xdd.Lockstep

open Links

/-- What phase 1 uses of `lockstep_t`; `first` is `LS_STATE_I_AM_THE_FIRST`. -/
structure Lsp (α : Type*) where
  next : Option α
  first : Bool
deriving DecidableEq, Repr

/-- The `td_lsp` of every target, and `GO_LOCKSTEP`. -/
structure Parsed (α : Type*) where
  lsp : α → Option (Lsp α)
  goLockstep : Bool

/-- An option that is accepted, as far as the ring is concerned. -/
structure LockstepOption (α : Type*) where
  master : α
  slave : α
  ne : master ≠ slave

variable {α : Type*} [DecidableEq α]

namespace Parsed

def empty : Parsed α := ⟨fun _ => none, false⟩

def setLsp (p : Parsed α) (t : α) (lsp : Lsp α) : Parsed α :=
  { p with lsp := Function.update p.lsp t (some lsp) }

/-- The structure of a target; a new one is zero. -/
def getLsp (p : Parsed α) (t : α) : Lsp α := (p.lsp t).getD ⟨none, false⟩

def next (p : Parsed α) (t : α) : Option α := (p.lsp t).bind Lsp.next

/-- `xddfunc_lockstep` in phase 1 -/
def xddfuncLockstep (p : Parsed α) (o : LockstepOption α) : Parsed α :=
  let p := p.setLsp o.master (p.getLsp o.master)
  let p := p.setLsp o.slave (p.getLsp o.slave)
  let p :=
    if p.goLockstep then p
    else { p.setLsp o.master { p.getLsp o.master with first := true } with goLockstep := true }
  let p :=
    match (p.getLsp o.master).next with
    | some next => p.setLsp o.slave { p.getLsp o.slave with next := some next }
    | none => p.setLsp o.slave { p.getLsp o.slave with next := some o.master }
  let p := p.setLsp o.master { p.getLsp o.master with next := some o.slave }
  p.setLsp o.slave { p.getLsp o.slave with first := false }

def parse (options : List (LockstepOption α)) : Parsed α := options.foldl xddfuncLockstep empty

end Parsed

/-- What the rings should be after these options. -/
structure Rings (p : Parsed α) (options : List (LockstepOption α)) : Prop where
  ring : ∀ t, (p.lsp t).isSome → OnRing p.next t
  together : ∀ o ∈ options, Reaches p.next o.master o.slave
  first : ∀ t, (p.lsp t).isSome → ∃! u, Reaches p.next t u ∧ (p.getLsp u).first = true

/-- The targets that the options name. -/
def named : List (LockstepOption α) → List α :=
  List.flatMap fun o => [o.master, o.slave]

/-! ## One option -/

namespace Parsed

variable {p : Parsed α} {o : LockstepOption α}

theorem lsp_master (p : Parsed α) (o : LockstepOption α) :
    (p.xddfuncLockstep o).lsp o.master =
      some ⟨some o.slave, if p.goLockstep then (p.getLsp o.master).first else true⟩ := by
  have hne := o.ne
  unfold xddfuncLockstep
  cases hgo : p.goLockstep <;> cases hnext : (p.getLsp o.master).next <;>
    simp [setLsp, getLsp, hne, hne.symm, hgo] at hnext ⊢ <;> simp [hnext, hne]

theorem lsp_slave (p : Parsed α) (o : LockstepOption α) :
    (p.xddfuncLockstep o).lsp o.slave =
      some ⟨some ((p.getLsp o.master).next.getD o.master), false⟩ := by
  have hne := o.ne
  unfold xddfuncLockstep
  cases hgo : p.goLockstep <;> cases hnext : (p.getLsp o.master).next <;>
    simp [setLsp, getLsp, hne, hne.symm, hgo] at hnext ⊢ <;> simp [hnext]

theorem lsp_other {t : α} (hmaster : t ≠ o.master) (hslave : t ≠ o.slave) :
    (p.xddfuncLockstep o).lsp t = p.lsp t := by
  unfold xddfuncLockstep
  cases hgo : p.goLockstep <;> simp [setLsp, hgo, hmaster, hslave] <;> split <;>
    simp [hmaster, hslave]

theorem goLockstep_xddfuncLockstep (p : Parsed α) (o : LockstepOption α) :
    (p.xddfuncLockstep o).goLockstep = true := by
  unfold xddfuncLockstep
  cases hgo : p.goLockstep <;> simp [setLsp, hgo] <;> split <;> simp

theorem next_master (p : Parsed α) (o : LockstepOption α) :
    (p.xddfuncLockstep o).next o.master = some o.slave := by
  simp [next, lsp_master]

theorem next_slave (p : Parsed α) (o : LockstepOption α) :
    (p.xddfuncLockstep o).next o.slave = some ((p.next o.master).getD o.master) := by
  rw [next, lsp_slave]
  cases hlsp : p.lsp o.master <;> simp [getLsp, next, hlsp]

theorem next_other {t : α} (hmaster : t ≠ o.master) (hslave : t ≠ o.slave) :
    (p.xddfuncLockstep o).next t = p.next t := by
  rw [next, next, lsp_other hmaster hslave]

theorem getLsp_other {t : α} (hmaster : t ≠ o.master) (hslave : t ≠ o.slave) :
    (p.xddfuncLockstep o).getLsp t = p.getLsp t := by
  rw [getLsp, getLsp, lsp_other hmaster hslave]

theorem parse_concat (options : List (LockstepOption α)) (o : LockstepOption α) :
    parse (options ++ [o]) = (parse options).xddfuncLockstep o := by
  simp [parse]

end Parsed

omit [DecidableEq α] in
theorem mem_named_concat {options : List (LockstepOption α)} {o : LockstepOption α} {t : α} :
    t ∈ named (options ++ [o]) ↔ t ∈ named options ∨ t = o.master ∨ t = o.slave := by
  simp [named]

/-! ## One ring -/

/-- All targets that are named are in one ring. -/
structure OneRing (p : Parsed α) (options : List (LockstepOption α)) : Prop where
  go : p.goLockstep = true
  lsp : ∀ t, (p.lsp t).isSome ↔ t ∈ named options
  next : ∀ t ∈ named options, ∃ u ∈ named options, p.next t = some u
  connected : ∀ t ∈ named options, ∀ u ∈ named options, Reaches p.next t u
  first : ∃ f ∈ named options, ∀ t ∈ named options, (p.getLsp t).first = true ↔ t = f
  other : ∀ t, ∃ u ∈ named options, u ≠ t

namespace OneRing

variable {p : Parsed α} {options : List (LockstepOption α)} {o : LockstepOption α}

omit [DecidableEq α] in
theorem next_eq_none (h : OneRing p options) {t : α} (ht : t ∉ named options) :
    p.next t = none := by
  have hlsp : p.lsp t = none := by
    rw [← Option.not_isSome_iff_eq_none, h.lsp]
    exact ht
  rw [Parsed.next, hlsp, Option.bind_none]

omit [DecidableEq α] in
theorem rings (h : OneRing p options) : Rings p options where
  ring := by
    intro t ht
    obtain ⟨u, hu, hnext⟩ := h.next t ((h.lsp t).mp ht)
    exact (h.connected u hu t ((h.lsp t).mp ht)).onRing hnext
  together := by
    intro o ho
    apply h.connected <;> exact List.mem_flatMap.mpr ⟨o, ho, by simp⟩
  first := by
    intro t ht
    obtain ⟨f, hf, hfirst⟩ := h.first
    refine ⟨f, ⟨h.connected t ((h.lsp t).mp ht) f hf, (hfirst f hf).mpr rfl⟩, ?_⟩
    rintro u ⟨hreach, hu⟩
    have hmem : u ∈ named options := by
      apply hreach.mem_of_closed ((h.lsp t).mp ht)
      intro a b ha hab
      obtain ⟨b', hb', hnext⟩ := h.next a ha
      rw [hab] at hnext
      exact Option.some.inj hnext ▸ hb'
    exact (hfirst u hmem).mp hu

/-- The first option. -/
theorem single (o : LockstepOption α) : OneRing (Parsed.parse [o]) [o] := by
  have hparse : Parsed.parse [o] = Parsed.empty.xddfuncLockstep o := rfl
  have hnamed : ∀ {t}, t ∈ named [o] ↔ t = o.master ∨ t = o.slave := by simp [named]
  have hslave : (Parsed.parse [o]).next o.slave = some o.master := by
    rw [hparse, Parsed.next_slave]
    rfl
  have hmaster : (Parsed.parse [o]).next o.master = some o.slave := by
    rw [hparse, Parsed.next_master]
  refine ⟨?_, ?_, ?_, ?_, ?_, ?_⟩
  · rw [hparse, Parsed.goLockstep_xddfuncLockstep]
  · intro t
    rw [hnamed, hparse]
    by_cases hm : t = o.master
    · simp [hm, Parsed.lsp_master]
    · by_cases hs : t = o.slave
      · simp [hs, Parsed.lsp_slave]
      · simp [Parsed.lsp_other hm hs, hm, hs, Parsed.empty]
  · intro t ht
    obtain rfl | rfl := hnamed.mp ht
    · exact ⟨_, hnamed.mpr (.inr rfl), hmaster⟩
    · exact ⟨_, hnamed.mpr (.inl rfl), hslave⟩
  · intro t ht u hu
    obtain rfl | rfl := hnamed.mp ht <;> obtain rfl | rfl := hnamed.mp hu
    · exact .refl _ _
    · exact .of_next hmaster
    · exact .of_next hslave
    · exact .refl _ _
  · refine ⟨o.master, hnamed.mpr (.inl rfl), ?_⟩
    intro t ht
    rw [hparse]
    obtain rfl | rfl := hnamed.mp ht
    · simp [Parsed.getLsp, Parsed.lsp_master, Parsed.empty]
    · simp [Parsed.getLsp, Parsed.lsp_slave, o.ne.symm]
  · intro t
    by_cases ht : t = o.master
    · exact ⟨o.slave, hnamed.mpr (.inr rfl), ht ▸ o.ne.symm⟩
    · exact ⟨o.master, hnamed.mpr (.inl rfl), Ne.symm ht⟩

/-- A new slave joins the ring behind its master. -/
theorem splice (h : OneRing p options) (hmaster : o.master ∈ named options)
    (hslave : o.slave ∉ named options) :
    OneRing (p.xddfuncLockstep o) (options ++ [o]) := by
  obtain ⟨c, hc, hnext⟩ := h.next o.master hmaster
  have hslave' : (p.xddfuncLockstep o).next o.slave = some c := by
    rw [Parsed.next_slave, hnext, Option.getD_some]
  have hnamed : ∀ {t}, t ∈ named (options ++ [o]) ↔ t ∈ named options ∨ t = o.slave := by
    intro t
    rw [mem_named_concat]
    constructor
    · rintro (ht | rfl | ht)
      · exact .inl ht
      · exact .inl hmaster
      · exact .inr ht
    · rintro (ht | ht)
      · exact .inl ht
      · exact .inr (.inr ht)
  have hold : ∀ t ∈ named options, ∀ u ∈ named options,
      Reaches (p.xddfuncLockstep o).next t u := by
    intro t ht u hu
    exact (h.connected t ht u hu).splice (h.next_eq_none hslave) hnext (p.next_master o) hslave'
      fun _ hm hs => Parsed.next_other hm hs
  have hin : ∀ t ∈ named options, Reaches (p.xddfuncLockstep o).next t o.slave := by
    intro t ht
    exact (hold t ht o.master hmaster).trans (.of_next (p.next_master o))
  have hout : ∀ u ∈ named options, Reaches (p.xddfuncLockstep o).next o.slave u := by
    intro u hu
    exact Reaches.trans (.of_next hslave') (hold c hc u hu)
  refine ⟨Parsed.goLockstep_xddfuncLockstep p o, ?_, ?_, ?_, ?_, ?_⟩
  · intro t
    rw [hnamed]
    by_cases hm : t = o.master
    · simp [hm, Parsed.lsp_master, hmaster]
    · by_cases hs : t = o.slave
      · simp [hs, Parsed.lsp_slave]
      · rw [Parsed.lsp_other hm hs, h.lsp]
        simp [hs]
  · intro t ht
    by_cases hm : t = o.master
    · exact ⟨o.slave, hnamed.mpr (.inr rfl), hm ▸ p.next_master o⟩
    · by_cases hs : t = o.slave
      · exact ⟨c, hnamed.mpr (.inl hc), hs ▸ hslave'⟩
      · obtain ⟨u, hu, hnext⟩ := h.next t ((hnamed.mp ht).resolve_right hs)
        exact ⟨u, hnamed.mpr (.inl hu), by rw [Parsed.next_other hm hs, hnext]⟩
  · intro t ht u hu
    obtain ht | rfl := hnamed.mp ht <;> obtain hu | rfl := hnamed.mp hu
    · exact hold t ht u hu
    · exact hin t ht
    · exact hout u hu
    · exact .refl _ _
  · obtain ⟨f, hf, hfirst⟩ := h.first
    refine ⟨f, hnamed.mpr (.inl hf), ?_⟩
    intro t ht
    by_cases hs : t = o.slave
    · have hne : o.slave ≠ f := by
        rintro rfl
        exact hslave hf
      simp [hs, Parsed.getLsp, Parsed.lsp_slave, hne]
    · rw [← hfirst t ((hnamed.mp ht).resolve_right hs)]
      by_cases hm : t = o.master
      · simp [hm, Parsed.getLsp, Parsed.lsp_master, h.go]
      · rw [Parsed.getLsp_other hm hs]
  · intro t
    obtain ⟨u, hu, hne⟩ := h.other t
    exact ⟨u, hnamed.mpr (.inl hu), hne⟩

end OneRing

/-! ## All options -/

/-- Each slave is new, and each master but the first one is not. -/
def Spliced (options : List (LockstepOption α)) : Prop :=
  ∀ before o, before ++ [o] <+: options →
    o.slave ∉ named before ∧ (before ≠ [] → o.master ∈ named before)

/-- A new slave is put into the ring, wherever its master stands. -/
theorem OneRing.of_spliced {options : List (LockstepOption α)} (h : Spliced options)
    (hne : options ≠ []) : OneRing (Parsed.parse options) options := by
  induction options using List.reverseRecOn with
  | nil => exact absurd rfl hne
  | append_singleton options o ih =>
    by_cases hnil : options = []
    · subst hnil
      exact .single o
    · obtain ⟨hslave, hmaster⟩ := h options o (List.prefix_refl _)
      rw [Parsed.parse_concat]
      exact (ih (fun before o hbefore => h before o (hbefore.trans (List.prefix_append _ _)))
        hnil).splice (hmaster hnil) hslave

/-- The slaves of the options, in order. -/
def slaves (options : List (LockstepOption α)) : List α := options.map (·.slave)

/-- What a target points to; a target that is not linked stands for itself. -/
def Parsed.target (p : Parsed α) (t : α) : α := (p.next t).getD t

/-- The targets that have been named have a structure, and each is linked to one of them. -/
structure Linked (p : Parsed α) (options : List (LockstepOption α)) : Prop where
  lsp : ∀ t, (p.lsp t).isSome ↔ t ∈ named options
  next : ∀ t ∈ named options, ∃ u ∈ named options, p.next t = some u

section Targets

variable {p : Parsed α} {options : List (LockstepOption α)} {o : LockstepOption α}

theorem Parsed.target_master (p : Parsed α) (o : LockstepOption α) :
    (p.xddfuncLockstep o).target o.master = o.slave := by
  rw [target, next_master, Option.getD_some]

theorem Parsed.target_slave (p : Parsed α) (o : LockstepOption α) :
    (p.xddfuncLockstep o).target o.slave = p.target o.master := by
  rw [target, next_slave, Option.getD_some, target]

theorem Parsed.target_other {t : α} (hmaster : t ≠ o.master) (hslave : t ≠ o.slave) :
    (p.xddfuncLockstep o).target t = p.target t := by
  rw [target, target, next_other hmaster hslave]

theorem Parsed.first_master (hgo : p.goLockstep = true) :
    ((p.xddfuncLockstep o).getLsp o.master).first = (p.getLsp o.master).first := by
  rw [getLsp, lsp_master, if_pos hgo, Option.getD_some]

theorem Parsed.first_slave (p : Parsed α) (o : LockstepOption α) :
    ((p.xddfuncLockstep o).getLsp o.slave).first = false := by
  rw [getLsp, lsp_slave, Option.getD_some]

theorem goLockstep_parse (hne : options ≠ []) : (Parsed.parse options).goLockstep = true := by
  obtain ⟨before, o, rfl⟩ := (List.eq_nil_or_concat options).resolve_left hne
  rw [List.concat_eq_append, Parsed.parse_concat, Parsed.goLockstep_xddfuncLockstep]

namespace Linked

omit [DecidableEq α] in
theorem first_of_not_mem (h : Linked p options) {t : α} (ht : t ∉ named options) :
    (p.getLsp t).first = false := by
  have hlsp : p.lsp t = none := by
    rw [← Option.not_isSome_iff_eq_none, h.lsp]
    exact ht
  rw [Parsed.getLsp, hlsp, Option.getD_none]

omit [DecidableEq α] in
theorem target_of_not_mem (h : Linked p options) {t : α} (ht : t ∉ named options) :
    p.target t = t := by
  have hlsp : p.lsp t = none := by
    rw [← Option.not_isSome_iff_eq_none, h.lsp]
    exact ht
  rw [Parsed.target, Parsed.next, hlsp, Option.bind_none, Option.getD_none]

omit [DecidableEq α] in
theorem target_mem (h : Linked p options) {t : α} (ht : t ∈ named options) :
    p.next t = some (p.target t) ∧ p.target t ∈ named options := by
  obtain ⟨u, hu, hnext⟩ := h.next t ht
  rw [Parsed.target, hnext]
  exact ⟨rfl, hu⟩

theorem parse (options : List (LockstepOption α)) : Linked (Parsed.parse options) options := by
  induction options using List.reverseRecOn with
  | nil => exact ⟨by simp [Parsed.parse, Parsed.empty, named], nofun⟩
  | append_singleton options o ih =>
    rw [Parsed.parse_concat]
    refine ⟨?_, ?_⟩
    · intro t
      rw [mem_named_concat]
      by_cases hm : t = o.master
      · simp [hm, Parsed.lsp_master]
      · by_cases hs : t = o.slave
        · simp [hs, Parsed.lsp_slave]
        · rw [Parsed.lsp_other hm hs, ih.lsp]
          simp [hm, hs]
    · intro t ht
      by_cases hm : t = o.master
      · exact ⟨o.slave, mem_named_concat.mpr (.inr (.inr rfl)), hm ▸ Parsed.next_master _ o⟩
      by_cases hs : t = o.slave
      · refine ⟨(Parsed.parse options).target o.master, ?_, hs ▸ Parsed.next_slave _ o⟩
        by_cases hold : o.master ∈ named options
        · exact mem_named_concat.mpr (.inl (ih.target_mem hold).2)
        · rw [ih.target_of_not_mem hold]
          exact mem_named_concat.mpr (.inr (.inl rfl))
      · have hold := (mem_named_concat.mp ht).resolve_right (by simp [hm, hs])
        obtain ⟨u, hu, hnext⟩ := ih.next t hold
        exact ⟨u, mem_named_concat.mpr (.inl hu), by rw [Parsed.next_other hm hs, hnext]⟩

end Linked

omit [DecidableEq α] in
theorem slaves_concat (options : List (LockstepOption α)) (o : LockstepOption α) :
    slaves (options ++ [o]) = slaves options ++ [o.slave] := by
  simp [slaves]

omit [DecidableEq α] in
theorem mem_named_of_mem_slaves {t : α} (h : t ∈ slaves options) : t ∈ named options := by
  obtain ⟨o, ho, rfl⟩ := List.mem_map.mp h
  exact List.mem_flatMap.mpr ⟨o, ho, by simp⟩

omit [DecidableEq α] in
/-- The last slave is not among the others. -/
theorem nodup_slaves_concat (h : (slaves (options ++ [o])).Nodup) :
    (slaves options).Nodup ∧ o.slave ∉ slaves options := by
  rw [slaves_concat] at h
  refine ⟨h.of_append_left, ?_⟩
  intro hmem
  exact (List.nodup_append.mp h).2.2 _ hmem _ List.mem_cons_self rfl

/-! ## Options with different slaves -/

/-- A target that has been named, but never as a slave, has handed the link to itself to its
slave, and slaves keep it or hand it on to their slaves. -/
theorem exists_slave_target (hnodup : (slaves options).Nodup) {t : α} (ht : t ∈ named options)
    (hslave : t ∉ slaves options) :
    ∃ h ∈ slaves options, (Parsed.parse options).target h = t := by
  induction options using List.reverseRecOn with
  | nil => cases ht
  | append_singleton options o ih =>
    obtain ⟨hnodup, ho⟩ := nodup_slaves_concat hnodup
    rw [slaves_concat, List.mem_append, List.mem_singleton, not_or] at hslave
    rw [Parsed.parse_concat, slaves_concat]
    by_cases hold : t ∈ named options
    · obtain ⟨h, hh, htarget⟩ := ih hnodup hold hslave.1
      by_cases hm : h = o.master
      · refine ⟨o.slave, by simp, ?_⟩
        rw [Parsed.target_slave, ← hm, htarget]
      · refine ⟨h, List.mem_append_left _ hh, ?_⟩
        rw [Parsed.target_other hm fun hs => ho (hs ▸ hh), htarget]
    · have hmaster : t = o.master :=
        ((mem_named_concat.mp ht).resolve_left hold).resolve_right hslave.2
      refine ⟨o.slave, by simp, ?_⟩
      rw [Parsed.target_slave, ← hmaster, (Linked.parse options).target_of_not_mem hold]

/-- Two targets point to the same one, and one of them has been a slave. -/
def Doubled (p : Parsed α) (options : List (LockstepOption α)) : Prop :=
  ∃ h x, h ∈ slaves options ∧ h ≠ x ∧ p.target h = p.target x

/-- A slave that is not new gets a second link to it. -/
theorem doubled_of_old (hnodup : (slaves (options ++ [o])).Nodup) (hold : o.slave ∈ named options) :
    Doubled (Parsed.parse (options ++ [o])) (options ++ [o]) := by
  obtain ⟨hnodup, ho⟩ := nodup_slaves_concat hnodup
  obtain ⟨h, hh, htarget⟩ := exists_slave_target hnodup hold ho
  rw [Parsed.parse_concat, Doubled, slaves_concat]
  by_cases hm : h = o.master
  · refine ⟨o.slave, o.master, by simp, o.ne.symm, ?_⟩
    rw [Parsed.target_slave, Parsed.target_master, ← hm, htarget]
  · refine ⟨h, o.master, List.mem_append_left _ hh, hm, ?_⟩
    rw [Parsed.target_other hm fun hs => ho (hs ▸ hh), Parsed.target_master, htarget]

/-- The two links stay, or are handed on: no target is a slave once more. -/
theorem Doubled.concat (h : Doubled (Parsed.parse options) options)
    (hnodup : (slaves (options ++ [o])).Nodup) :
    Doubled (Parsed.parse (options ++ [o])) (options ++ [o]) := by
  by_cases hold : o.slave ∈ named options
  · exact doubled_of_old hnodup hold
  have ho := (nodup_slaves_concat hnodup).2
  obtain ⟨h, x, hh, hne, htarget⟩ := h
  have hlinked := Linked.parse options
  have hhs : h ≠ o.slave := fun hs => ho (hs ▸ hh)
  have hxs : x ≠ o.slave := by
    rintro rfl
    -- nothing points to a target that is new
    rw [hlinked.target_of_not_mem hold] at htarget
    exact hold (htarget ▸ (hlinked.target_mem (mem_named_of_mem_slaves hh)).2)
  rw [Parsed.parse_concat, Doubled, slaves_concat]
  by_cases hhm : h = o.master
  · refine ⟨o.slave, x, by simp, hxs.symm, ?_⟩
    rw [Parsed.target_slave, ← hhm, htarget, Parsed.target_other (hhm ▸ hne.symm) hxs]
  by_cases hxm : x = o.master
  · refine ⟨h, o.slave, List.mem_append_left _ hh, hhs, ?_⟩
    rw [Parsed.target_slave, ← hxm, ← htarget, Parsed.target_other hhm hhs]
  · refine ⟨h, x, List.mem_append_left _ hh, hne, ?_⟩
    rw [Parsed.target_other hhm hhs, Parsed.target_other hxm hxs, htarget]

/-- On rings, no two targets point to the same one. -/
theorem not_rings_of_target_eq {h x : α} (hh : h ∈ named options) (hne : h ≠ x)
    (htarget : (Parsed.parse options).target h = (Parsed.parse options).target x) :
    ¬ Rings (Parsed.parse options) options := by
  intro hrings
  have hlinked := Linked.parse options
  obtain ⟨hnext, hmem⟩ := hlinked.target_mem hh
  have hring : ∀ t ∈ named options, OnRing (Parsed.parse options).next t :=
    fun t ht => hrings.ring t ((hlinked.lsp t).mpr ht)
  by_cases hx : x ∈ named options
  · refine hne ((hring _ hmem).pred_unique (hring h hh) (hring x hx) hnext ?_)
    rw [htarget]
    exact (hlinked.target_mem hx).1
  · rw [htarget, hlinked.target_of_not_mem hx] at hmem
    exact hx hmem

/-- Some targets are linked among themselves, and none of them starts. -/
def Apart (p : Parsed α) (options : List (LockstepOption α)) : Prop :=
  ∃ B : Set α, B.Nonempty ∧ ∀ t ∈ B, t ∈ named options ∧ p.target t ∈ B ∧
    (p.getLsp t).first = false

/-- Two new targets make a ring of their own. -/
theorem apart_of_new (hne : options ≠ []) (hmaster : o.master ∉ named options) :
    Apart (Parsed.parse (options ++ [o])) (options ++ [o]) := by
  have hlinked := Linked.parse options
  rw [Parsed.parse_concat]
  refine ⟨{o.master, o.slave}, ⟨o.master, .inl rfl⟩, ?_⟩
  rintro t (rfl | rfl)
  · refine ⟨mem_named_concat.mpr (.inr (.inl rfl)), ?_, ?_⟩
    · rw [Parsed.target_master]
      exact .inr rfl
    · rw [Parsed.first_master (goLockstep_parse hne), hlinked.first_of_not_mem hmaster]
  · refine ⟨mem_named_concat.mpr (.inr (.inr rfl)), ?_, Parsed.first_slave _ o⟩
    rw [Parsed.target_slave, hlinked.target_of_not_mem hmaster]
    exact .inl rfl

/-- A new slave joins the others or stays away from them. -/
theorem Apart.concat (h : Apart (Parsed.parse options) options) (hslave : o.slave ∉ named options) :
    Apart (Parsed.parse (options ++ [o])) (options ++ [o]) := by
  obtain ⟨B, hB, hclosed⟩ := h
  have hne : options ≠ [] := by
    rintro rfl
    obtain ⟨t, ht⟩ := hB
    cases (hclosed t ht).1
  have hnot : ∀ t ∈ B, t ≠ o.slave := by
    rintro t ht rfl
    exact hslave (hclosed _ ht).1
  rw [Parsed.parse_concat]
  by_cases hmaster : o.master ∈ B
  · refine ⟨insert o.slave B, ⟨o.slave, .inl rfl⟩, ?_⟩
    rintro t (rfl | ht)
    · refine ⟨mem_named_concat.mpr (.inr (.inr rfl)), ?_, Parsed.first_slave _ o⟩
      rw [Parsed.target_slave]
      exact .inr (hclosed _ hmaster).2.1
    · obtain ⟨hnamed, htarget, hfirst⟩ := hclosed t ht
      refine ⟨mem_named_concat.mpr (.inl hnamed), ?_⟩
      by_cases hm : t = o.master
      · subst hm
        rw [Parsed.target_master, Parsed.first_master (goLockstep_parse hne)]
        exact ⟨.inl rfl, hfirst⟩
      · rw [Parsed.target_other hm (hnot t ht), Parsed.getLsp_other hm (hnot t ht)]
        exact ⟨.inr htarget, hfirst⟩
  · refine ⟨B, hB, ?_⟩
    intro t ht
    obtain ⟨hnamed, htarget, hfirst⟩ := hclosed t ht
    have hm : t ≠ o.master := fun hm => hmaster (hm ▸ ht)
    rw [Parsed.target_other hm (hnot t ht), Parsed.getLsp_other hm (hnot t ht)]
    exact ⟨mem_named_concat.mpr (.inl hnamed), htarget, hfirst⟩

/-- From these targets no target is reached that starts. -/
theorem Apart.not_rings (h : Apart (Parsed.parse options) options) :
    ¬ Rings (Parsed.parse options) options := by
  intro hrings
  obtain ⟨B, ⟨t, ht⟩, hclosed⟩ := h
  have hlinked := Linked.parse options
  obtain ⟨u, ⟨hreach, hfirst⟩, -⟩ := hrings.first t ((hlinked.lsp t).mpr (hclosed t ht).1)
  have hu : u ∈ B := by
    apply hreach.mem_of_closed (P := (· ∈ B)) ht
    intro a b ha hab
    obtain ⟨hnamed, htarget, -⟩ := hclosed a ha
    rw [(hlinked.target_mem hnamed).1] at hab
    exact Option.some.inj hab ▸ htarget
  rw [(hclosed u hu).2.2] at hfirst
  cases hfirst

/-- The first option that is not spliced in leaves a trace for good. -/
theorem spliced_or (hnodup : (slaves options).Nodup) :
    Spliced options ∨ Doubled (Parsed.parse options) options ∨
      Apart (Parsed.parse options) options := by
  induction options using List.reverseRecOn with
  | nil =>
    left
    intro before o hprefix
    simp at hprefix
  | append_singleton options o ih =>
    by_cases hslave : o.slave ∈ named options
    · exact .inr (.inl (doubled_of_old hnodup hslave))
    obtain hspliced | hdoubled | hapart := ih (nodup_slaves_concat hnodup).1
    · by_cases hmaster : options ≠ [] ∧ o.master ∉ named options
      · exact .inr (.inr (apart_of_new hmaster.1 hmaster.2))
      · left
        intro before o' hprefix
        obtain heq | hshort := List.prefix_concat_iff.mp hprefix
        · obtain ⟨hbefore, hlast⟩ := List.append_inj' heq rfl
          obtain rfl := List.singleton_inj.mp hlast
          subst hbefore
          refine ⟨hslave, fun hne => ?_⟩
          by_contra hnot
          exact hmaster ⟨hne, hnot⟩
        · exact hspliced before o' hshort
    · exact .inr (.inl (hdoubled.concat hnodup))
    · exact .inr (.inr (hapart.concat hslave))

end Targets

/-- The rings come out right if each slave is new and each master, the first one apart, is in
the ring. If no target is a slave twice, they come out right only then. -/
theorem rings_iff (options : List (LockstepOption α)) :
    (Spliced options → Rings (.parse options) options) ∧
      ((slaves options).Nodup → Rings (.parse options) options → Spliced options) := by
  refine ⟨?_, ?_⟩
  · intro hspliced
    by_cases hnil : options = []
    · subst hnil
      exact ⟨by simp [Parsed.parse, Parsed.empty], by simp, by simp [Parsed.parse, Parsed.empty]⟩
    · exact (OneRing.of_spliced hspliced hnil).rings
  · intro hnodup hrings
    obtain hspliced | hdoubled | hapart := spliced_or hnodup
    · exact hspliced
    · obtain ⟨h, x, hh, hne, htarget⟩ := hdoubled
      exact absurd hrings (not_rings_of_target_eq (mem_named_of_mem_slaves hh) hne htarget)
    · exact absurd hrings hapart.not_rings

/-- Two slaves of one target are fine, two masters of one target or two pairs are not. -/
theorem rings_broken :
    ¬ Rings (.parse [⟨0, 1, by decide⟩, ⟨2, 1, by decide⟩])
        ([⟨0, 1, by decide⟩, ⟨2, 1, by decide⟩] : List (LockstepOption Nat)) ∧
      ¬ Rings (.parse [⟨0, 1, by decide⟩, ⟨2, 3, by decide⟩])
        ([⟨0, 1, by decide⟩, ⟨2, 3, by decide⟩] : List (LockstepOption Nat)) := by
  constructor
  · exact not_rings_of_target_eq (h := 0) (x := 2) (by simp [named]) (by decide) (by decide)
  · have hne : ([⟨0, 1, by decide⟩] : List (LockstepOption Nat)) ≠ [] := by simp
    exact Apart.not_rings (apart_of_new hne (o := ⟨2, 3, by decide⟩) (by simp [named]))

end Xdd.Lockstep
