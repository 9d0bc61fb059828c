/-
A context goes on where it was promised, over any run.

What a promise means in memory is a frame (`Frame`): five words in the
context's own stack at the address in its `esp` field, in the order of the
pops. `task_init` and the save half of the switch are two ways to build
one, both a run of pushes (`taskInit_frame`, `save_frame`); the restore
half turns a frame back into its point (`restore_point`). Everything else
is a frame condition: each of the three writes inside one stack and one
`ktask_t`, which no other context shares.
-/
import Thuos.Sched.Context
import Thuos.Lib.Word32

namespace Thuos.Sched

open Machine ByteMem I386

-- ================================================================== frames

section Frames

variable {ι : Type*} (L : Contexts ι)

/-- The byte is of the context's stack or its `ktask_t`. -/
def Own (i : ι) (x : Nat) : Prop :=
  ((L.stack i).toNat ≤ x ∧ x < (L.stack i).toNat + (L.size i).toNat)
    ∨ ((L.task i).toNat ≤ x ∧ x < (L.task i).toNat + 12)

/-- In memory, the context waits at a point. -/
structure Frame (m : Mem) (i : ι) (p : Point) : Prop where
  low : (L.stack i).toNat ≤ (word m (L.task i)).toNat
  high : (word m (L.task i)).toNat + 20
    ≤ (L.stack i).toNat + (L.size i).toNat
  words : Stack m (word m (L.task i)).toNat
    [p.ebp, p.edi, p.esi, p.ebx, p.eip]
  esp : p.esp.toNat = (word m (L.task i)).toNat + 20

variable {L} {i j : ι} {m m' : Mem} {p : Point}

/-- What two contexts own is apart. -/
theorem own_apart (hij : i ≠ j) {x : Nat} (h : Own L i x) : ¬ Own L j x := by
  have hs := L.stacks_apart i j hij
  have ht := L.tasks_apart i j hij
  have hst := L.task_apart i j
  have hts := L.task_apart j i
  rintro (hj | hj)
  · cases h with
    | inl hi => omega
    | inr hi => omega
  · cases h with
    | inl hi => omega
    | inr hi => omega

theorem word_congr {a : UInt32}
    (h : ∀ x, a.toNat ≤ x → x < a.toNat + 4 → m' x = m x) :
    word m' a = word m a := by
  unfold word
  rw [Mem.load32_congr h]

/-- A frame is in what its context owns. -/
theorem Frame.congr (h : Frame L m i p)
    (heq : ∀ x, Own L i x → m' x = m x) : Frame L m' i p := by
  have hword : word m' (L.task i) = word m (L.task i) :=
    word_congr fun x hx hx' => heq x (Or.inr ⟨hx, by omega⟩)
  have hlow := h.low
  have hhigh := h.high
  refine ⟨?_, ?_, ?_, ?_⟩
  · rw [hword]
    exact hlow
  · rw [hword]
    exact hhigh
  · rw [hword]
    refine h.words.congr fun x hx hx' => heq x (Or.inl ⟨by omega, ?_⟩)
    simp only [List.length_cons, List.length_nil] at hx'
    omega
  · rw [hword]
    exact h.esp

-- ============================================================ both builders

/-- The common half of the two builders: five words on a stack, whose
address goes into the `esp` field. -/
theorem frame_of_stack {e : UInt32} (hlow : (L.stack i).toNat ≤ e.toNat)
    (hhigh : e.toNat + 20 ≤ (L.stack i).toNat + (L.size i).toNat)
    (hwords : Stack m e.toNat [p.ebp, p.edi, p.esi, p.ebx, p.eip])
    (hesp : p.esp.toNat = e.toNat + 20) :
    Frame L (setWord m (L.task i) e) i p := by
  have hword : word (setWord m (L.task i) e) (L.task i) = e :=
    word_eq (load32_setWord ..)
  refine ⟨?_, ?_, ?_, ?_⟩
  · rw [hword]
    exact hlow
  · rw [hword]
    exact hhigh
  · rw [hword]
    refine hwords.congr fun x hx hx' => setWord_outside m e ?_
    have hapart := L.task_apart i i
    simp only [List.length_cons, List.length_nil] at hx'
    omega
  · rw [hword]
    exact hesp

/-- `x & ~15`. -/
theorem toNat_align (x : UInt32) :
    (x &&& ~~~(STACK_ALIGN - 1)).toNat = x.toNat / 16 * 16 := by
  have hmask : (~~~(STACK_ALIGN - 1)).toNat = (2 ^ (32 - 4) - 1) * 2 ^ 4 := by
    decide
  rw [UInt32.toNat_and, hmask]
  exact Word32.and_high (by decide) x.toNat_lt

/-- `task_init` builds the frame of a new context, in what the context
owns. -/
theorem taskInit_frame (m : Mem) (i : ι) (entry : UInt32)
    (hsize : 64 ≤ (L.size i).toNat) :
    Frame L (taskInit m (L.task i) (L.stack i) (L.size i) entry).1 i
        (entryPoint L i entry)
      ∧ ∀ x, ¬ Own L i x →
        (taskInit m (L.task i) (L.stack i) (L.size i) entry).1 x = m x := by
  have hend := L.stack_end i
  have htask := L.task_end i
  have hapart := L.task_apart i i
  have htop : ((L.stack i + L.size i) &&& ~~~(STACK_ALIGN - 1)).toNat
      = ((L.stack i).toNat + (L.size i).toNat) / 16 * 16 := by
    rw [toNat_align, toNat_add hend]
  have h4 : (L.task i + 4).toNat = (L.task i).toNat + 4 :=
    toNat_add (Nat.lt_of_le_of_lt (Nat.add_le_add_left (by decide) _) htask)
  have h8 : (L.task i + 8).toNat = (L.task i).toNat + 8 :=
    toNat_add (Nat.lt_of_le_of_lt (Nat.add_le_add_left (by decide) _) htask)
  unfold taskInit
  dsimp only
  generalize (L.stack i + L.size i) &&& ~~~(STACK_ALIGN - 1) = top at htop
  generalize hm₁ : setWord m (L.task i + 4) (L.stack i) = m₁
  generalize hm₂ : setWord m₁ (L.task i + 8) (L.size i) = m₂
  have hroom : 4 * [entry, 0, 0, 0, 0].length ≤ top.toNat := by
    simp only [List.length_cons, List.length_nil]
    omega
  obtain ⟨hesp, hstack, hframe⟩ := pushAll_spec hroom (Stack.nil m₂ top.toNat)
  simp only [List.length_cons, List.length_nil, List.reverse_cons,
    List.reverse_nil, List.nil_append, List.cons_append] at hesp hstack hframe
  refine ⟨frame_of_stack ?_ ?_ ?_ ?_, fun x hx => ?_⟩
  · omega
  · omega
  · rw [hesp]
    exact hstack
  · show (UInt32.ofNat _).toNat = _
    rw [UInt32.toNat_ofNat', Nat.mod_eq_of_lt (by omega)]
    omega
  · -- the three fields and the five words are the context's own
    unfold Own at hx
    rw [setWord_outside _ _ (by omega), hframe x (by omega), ← hm₂,
      setWord_outside _ _ (by omega), ← hm₁, setWord_outside _ _ (by omega)]

end Frames

-- ============================================================== the switch

/-- The save half: four pushes, the stack pointer stored where the first
argument points, and the second argument in its place. -/
theorem save_eq (c : Cpu) :
    (run c switchSave).mem
        = setWord
          (pushAll (c.mem, c.reg .esp)
            [c.reg .ebx, c.reg .esi, c.reg .edi, c.reg .ebp]).1
          (word c.mem (c.reg .esp + 4))
          (pushAll (c.mem, c.reg .esp)
            [c.reg .ebx, c.reg .esi, c.reg .edi, c.reg .ebp]).2
      ∧ (run c switchSave).reg .esp = word c.mem (c.reg .esp + 8) :=
  ⟨rfl, rfl⟩

/-- The restore half: the words on the stack, in the order of the pops. -/
theorem restore_eq (c : Cpu) :
    (run c switchRestore).mem = c.mem
      ∧ point (run c switchRestore)
        = { ebp := word c.mem (c.reg .esp)
            edi := word c.mem (c.reg .esp + 4)
            esi := word c.mem (c.reg .esp + 4 + 4)
            ebx := word c.mem (c.reg .esp + 4 + 4 + 4)
            eip := word c.mem (c.reg .esp + 4 + 4 + 4 + 4)
            esp := c.reg .esp + 4 + 4 + 4 + 4 + 4 } :=
  ⟨rfl, rfl⟩

/-- A frame under the stack pointer is turned into its point. -/
theorem restore_point {c : Cpu} {p : Point}
    (hfit : (c.reg .esp).toNat + 20 < 2 ^ 32)
    (hwords : Stack c.mem (c.reg .esp).toNat
      [p.ebp, p.edi, p.esi, p.ebx, p.eip])
    (hesp : p.esp.toNat = (c.reg .esp).toNat + 20) :
    point (run c switchRestore) = p := by
  have h1 := toNat_add_four (a := c.reg .esp) (by omega)
  have h2 := toNat_add_four (a := c.reg .esp + 4) (by omega)
  have h3 := toNat_add_four (a := c.reg .esp + 4 + 4) (by omega)
  have h4 := toNat_add_four (a := c.reg .esp + 4 + 4 + 4) (by omega)
  have h5 := toNat_add_four (a := c.reg .esp + 4 + 4 + 4 + 4) (by omega)
  have hedi := hwords.tail (by omega)
  have hesi := hedi.tail (by omega)
  have hebx := hesi.tail (by omega)
  have heip := hebx.tail (by omega)
  have hlast : c.reg .esp + 4 + 4 + 4 + 4 + 4 = p.esp := by
    apply UInt32.toNat_inj.mp
    omega
  rw [(restore_eq c).2, hwords.head, hedi.head, hesi.head, hebx.head,
    heip.head, hlast]

/-- The save half leaves a frame of the return point, in what the running
context owns. -/
theorem save_frame {ι : Type*} {L : Contexts ι} {c : Cpu} {i : ι}
    (hlow : (L.stack i).toNat + 16 ≤ (c.reg .esp).toNat)
    (hhigh : (c.reg .esp).toNat + 12
      ≤ (L.stack i).toNat + (L.size i).toNat)
    (harg : word c.mem (c.reg .esp + 4) = L.task i) :
    Frame L (run c switchSave).mem i (returnPoint c)
      ∧ ∀ x, ¬ Own L i x → (run c switchSave).mem x = c.mem x := by
  have hend := L.stack_end i
  have hret : Stack c.mem (c.reg .esp).toNat [word c.mem (c.reg .esp)] :=
    ⟨(toNat_word ..).symm, trivial⟩
  have hroom : 4 * [c.reg .ebx, c.reg .esi, c.reg .edi, c.reg .ebp].length
      ≤ (c.reg .esp).toNat := by
    simp only [List.length_cons, List.length_nil]
    omega
  obtain ⟨hesp, hstack, hframe⟩ := pushAll_spec hroom hret
  simp only [List.length_cons, List.length_nil, List.reverse_cons,
    List.reverse_nil, List.nil_append, List.cons_append] at hesp hstack hframe
  rw [(save_eq c).1, harg]
  generalize pushAll (c.mem, c.reg .esp)
    [c.reg .ebx, c.reg .esi, c.reg .edi, c.reg .ebp] = q
    at hesp hstack hframe
  refine ⟨frame_of_stack ?_ ?_ ?_ ?_, fun x hx => ?_⟩
  · omega
  · omega
  · rw [hesp]
    exact hstack
  · show (c.reg .esp + 4).toNat = _
    have hfour := toNat_add_four (a := c.reg .esp) (by omega)
    omega
  · unfold Own at hx
    rw [setWord_outside _ _ (by omega), hframe x (by omega)]

-- =================================================================== the run

section Run

variable {ι : Type*} {L : Contexts ι} {s : Run ι}

/-- The running context is promised nothing, and each suspended one has its
frame in memory. -/
structure Inv (L : Contexts ι) (s : Run ι) : Prop where
  idle : s.promise s.running = none
  frames : ∀ i p, s.promise i = some p → Frame L s.cpu.mem i p

/-- What a switch does: the point promised, a frame for the caller, and
nothing of the others. -/
theorem switch_spec {i : ι} {p : Point} (h : Inv L s)
    (hlegal : Legal L s (.switch i)) (hp : s.promise i = some p) :
    point (run s.cpu thuosContextSwitch) = p
      ∧ Frame L (run s.cpu thuosContextSwitch).mem s.running
          (returnPoint s.cpu)
      ∧ ∀ x, ¬ Own L s.running x →
        (run s.cpu thuosContextSwitch).mem x = s.cpu.mem x := by
  obtain ⟨-, hlow, hhigh, harg, hvalue⟩ := hlegal
  obtain ⟨hframe, hrest⟩ := save_frame hlow hhigh harg
  have hne : i ≠ s.running := by
    intro heq
    rw [heq, h.idle] at hp
    cases hp
  have hcode : run s.cpu thuosContextSwitch
      = run (run s.cpu switchSave) switchRestore := run_append ..
  have hmem : (run s.cpu thuosContextSwitch).mem
      = (run s.cpu switchSave).mem := by
    rw [hcode]
    exact (restore_eq _).1
  have htarget : Frame L (run s.cpu switchSave).mem i p :=
    (h.frames i p hp).congr fun x hx => hrest x (own_apart hne hx)
  have hesp : (run s.cpu switchSave).reg .esp
      = word (run s.cpu switchSave).mem (L.task i) := by
    rw [(save_eq s.cpu).2, hvalue]
    refine (word_congr fun x hx hx' => hrest x ?_).symm
    exact own_apart hne (Or.inr ⟨hx, by omega⟩)
  have hend := L.stack_end i
  have hhigh := htarget.high
  rw [hmem]
  refine ⟨?_, hframe, hrest⟩
  rw [hcode]
  refine restore_point ?_ ?_ ?_
  · rw [hesp]
    omega
  · rw [hesp]
    exact htarget.words
  · rw [hesp]
    exact htarget.esp

variable [DecidableEq ι]

/-- The step lemma. -/
theorem inv_step {op : CtxOp ι} (h : Inv L s) (hlegal : Legal L s op) :
    Inv L (ctxStep L s op) ∧ Kept L s op := by
  cases op with
  | work c =>
      refine ⟨⟨h.idle, fun i p hp => ?_⟩, trivial⟩
      refine (h.frames i p hp).congr fun x hx => hlegal x ⟨i, ?_, hx⟩
      have hp : s.promise i = some p := hp
      rw [hp]
      rfl
  | create i entry =>
      obtain ⟨hne, hsize⟩ := hlegal
      obtain ⟨hframe, hrest⟩ := taskInit_frame s.cpu.mem i entry hsize
      refine ⟨⟨?_, fun j p hp => ?_⟩, trivial⟩
      · show Function.update _ _ _ s.running = _
        rw [Function.update_of_ne hne.symm]
        exact h.idle
      · change Function.update _ _ _ _ = _ at hp
        by_cases hj : j = i
        · rw [hj, Function.update_self] at hp
          cases hp
          rw [hj]
          exact hframe
        · rw [Function.update_of_ne hj] at hp
          exact (h.frames j p hp).congr fun x hx =>
            hrest x (own_apart hj hx)
  | switch i =>
      obtain ⟨p, hp⟩ := Option.isSome_iff_exists.mp hlegal.1
      obtain ⟨hpoint, hframe, hrest⟩ := switch_spec h hlegal hp
      refine ⟨⟨?_, fun j q hq => ?_⟩, ?_⟩
      · show Function.update _ _ _ _ = _
        exact Function.update_self ..
      · change Function.update _ _ _ _ = _ at hq
        by_cases hji : j = i
        · rw [hji, Function.update_self] at hq
          cases hq
        rw [Function.update_of_ne hji] at hq
        by_cases hjr : j = s.running
        · rw [hjr, Function.update_self] at hq
          cases hq
          rw [hjr]
          exact hframe
        · rw [Function.update_of_ne hjr] at hq
          exact (h.frames j q hq).congr fun x hx =>
            hrest x (own_apart hjr hx)
      · show s.promise i = some (point (run s.cpu thuosContextSwitch))
        rw [hp, hpoint]

/-- The run lemma. -/
theorem run_kept {ops : List (CtxOp ι)} (h : Inv L s)
    (hlegal : Along (ctxStep L) (Legal L) s ops) :
    Along (ctxStep L) (Kept L) s ops := by
  induction ops generalizing s with
  | nil => trivial
  | cons op ops ih =>
      obtain ⟨hnext, hkept⟩ := inv_step h hlegal.1
      exact ⟨hkept, ih hnext hlegal.2⟩

/-- A compiled call to a suspended context is legal, with 28 bytes left on
the caller's stack. -/
theorem call_legal {i : ι} (ret : UInt32) (h : Inv L s)
    (hi : (s.promise i).isSome)
    (hlow : (L.stack s.running).toNat + 28 ≤ (s.cpu.reg .esp).toNat)
    (hhigh : (s.cpu.reg .esp).toNat
      ≤ (L.stack s.running).toNat + (L.size s.running).toNat) :
    Along (ctxStep L) (Legal L) s [callSwitch L s i ret, .switch i] := by
  have hend := L.stack_end s.running
  have hroom : 4 * [word s.cpu.mem (L.task i), L.task s.running, ret].length
      ≤ (s.cpu.reg .esp).toNat := by
    simp only [List.length_cons, List.length_nil]
    omega
  obtain ⟨hesp, hstack, hframe⟩ := pushAll_spec hroom
    (Stack.nil s.cpu.mem (s.cpu.reg .esp).toNat)
  simp only [List.length_cons, List.length_nil, List.reverse_cons,
    List.reverse_nil, List.nil_append, List.cons_append] at hesp hstack hframe
  unfold callSwitch
  change Along _ _ s [CtxOp.work (s.cpu.setStack (pushAll (s.cpu.mem,
    s.cpu.reg .esp) _)), CtxOp.switch i]
  generalize pushAll (s.cpu.mem, s.cpu.reg .esp)
    [word s.cpu.mem (L.task i), L.task s.running, ret] = q
    at hesp hstack hframe
  rw [← hesp] at hstack
  have hown : ∀ x, ¬ Own L s.running x → q.1 x = s.cpu.mem x := by
    intro x hx
    unfold Own at hx
    exact hframe x (by omega)
  have hne : i ≠ s.running := by
    intro heq
    rw [heq, h.idle] at hi
    cases hi
  have hfour := toNat_add_four (a := q.2) (by omega)
  have hsave := hstack.tail (by omega)
  have hnext := hsave.tail (by omega)
  have height : q.2 + 8 = q.2 + 4 + 4 := (UInt32.add_assoc q.2 4 4).symm
  refine ⟨fun x hx => ?_, ⟨hi, ?_, ?_, ?_, ?_⟩, trivial⟩
  · obtain ⟨j, hj, hx⟩ := hx
    refine hown x (own_apart ?_ hx)
    intro heq
    rw [heq, h.idle] at hj
    cases hj
  · show (L.stack s.running).toNat + 16 ≤ q.2.toNat
    omega
  · show q.2.toNat + 12 ≤ (L.stack s.running).toNat + (L.size s.running).toNat
    omega
  · exact hsave.head
  · show word q.1 (q.2 + 8) = word q.1 (L.task i)
    rw [height, hnext.head]
    refine (word_congr fun x hx hx' => hown x ?_).symm
    exact own_apart hne (Or.inr ⟨hx, by omega⟩)

/-- Any number of contexts, any code between the calls: every switch goes
on at the point that the context was promised, its return point at its own
last switch, or its entry point if it is new. -/
theorem context_switch_kept (L : Contexts ι) (c : Cpu) (main : ι)
    (ops : List (CtxOp ι))
    (hlegal : Along (ctxStep L) (Legal L)
      { cpu := c, running := main, promise := fun _ => none } ops) :
    Along (ctxStep L) (Kept L)
      { cpu := c, running := main, promise := fun _ => none } ops :=
  run_kept ⟨rfl, fun _ _ hp => nomatch hp⟩ hlegal

end Run

-- ============================================================ two contexts

/-- The stack of the caller and a stack of 64 bytes. -/
def twoStacks : Contexts Bool where
  stack i := if i then 0x2000 else 0x1000
  size i := if i then 64 else 0x1000
  task i := if i then 0x4010 else 0x4000
  stack_end := by decide
  task_end := by decide
  stacks_apart := by decide
  tasks_apart := by decide
  task_apart := by decide

/-- The caller, with 7 in every register and its stack at 0x1800. -/
def caller : Run Bool :=
  { cpu := { reg := fun r => if r = .esp then 0x1800 else 7, eip := 0
             mem := fun _ => 0 }
    running := false
    promise := fun _ => none }

/-- It makes a task. -/
def taskMade : Run Bool := ctxStep twoStacks caller (.create true 0x100)

/-- It calls for a switch to the task. -/
def taskCalled : Run Bool :=
  ctxStep twoStacks taskMade (callSwitch twoStacks taskMade true 0x55)

/-- The task runs. -/
def taskEntered : Run Bool := ctxStep twoStacks taskCalled (.switch true)

/-- It calls for a switch back. -/
def callerCalled : Run Bool :=
  ctxStep twoStacks taskEntered (callSwitch twoStacks taskEntered false 0x77)

/-- A new task is entered, and its first switch returns to the caller. -/
theorem context_switch_there_and_back :
    point taskEntered.cpu
        = { eip := 0x100, ebx := 0, esi := 0, edi := 0, ebp := 0
            esp := 0x2040 }
      ∧ point (ctxStep twoStacks callerCalled (.switch false)).cpu
        = { eip := 0x55, ebx := 7, esi := 7, edi := 7, ebp := 7
            esp := 0x17F8 } := by
  have h₀ : Inv twoStacks caller := ⟨rfl, fun _ _ hp => nomatch hp⟩
  have hmake : Legal twoStacks caller (.create true 0x100) :=
    ⟨by decide, by decide⟩
  have h₁ : Inv twoStacks taskMade := (inv_step h₀ hmake).1
  have hthere := call_legal (i := true) 0x55 h₁ rfl (by decide) (by decide)
  have h₃ : Inv twoStacks taskEntered :=
    (inv_step (inv_step h₁ hthere.1).1 hthere.2.1).1
  have hentered : point taskEntered.cpu = entryPoint twoStacks true 0x100 := by
    have hkept := (inv_step (inv_step h₁ hthere.1).1 hthere.2.1).2
    exact (Option.some.inj hkept).symm
  have hesp : taskEntered.cpu.reg .esp = 0x2040 :=
    (congrArg Point.esp hentered).trans (by decide)
  have hback := call_legal (i := false) 0x77 h₃ rfl
    (by rw [hesp]; decide) (by rw [hesp]; decide)
  have hkept := context_switch_kept twoStacks caller.cpu false
    [.create true 0x100, callSwitch twoStacks taskMade true 0x55,
      .switch true, callSwitch twoStacks taskEntered false 0x77,
      .switch false]
    ⟨hmake, hthere.1, hthere.2.1, hback⟩
  have hpromised : callerCalled.promise false
      = some (returnPoint taskCalled.cpu) := rfl
  have hreturn : returnPoint taskCalled.cpu
      = { eip := 0x55, ebx := 7, esi := 7, edi := 7, ebp := 7
          esp := 0x17F8 } := by decide +kernel
  refine ⟨hentered.trans (by decide), ?_⟩
  have hlast : callerCalled.promise false
      = some (point (ctxStep twoStacks callerCalled (.switch false)).cpu) :=
    hkept.2.2.2.2.1
  rw [hpromised, hreturn] at hlast
  exact (Option.some.inj hlast).symm

end Thuos.Sched
