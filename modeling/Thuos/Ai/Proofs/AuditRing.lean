/-
The audit ring holds the newest 32 records.

`AuditOk w recs` says that the array is the ring of the records `recs`
(`CycleRing.Laid`, whose lap bits an audit slot does not have), with the
cursor, the count and the sequence number at their places. A record call
appends to `recs` and every other call leaves it (`AuditOk.step`), so a
read at distance `back` finds record `n - 1 - back` of the `n` made so
far: the cursor minus one minus `back` is at least `-32`, where C's
remainder and the correction after it give the remainder of the number
itself (`ring_index`).
-/
import Thuos.Ai.Core
import Thuos.Lib.CycleRing

namespace Thuos.Ai

open CycleRing Machine

-- ============================================================ the relation

/-- The ring holds the last of the records `recs`. -/
structure AuditOk (w : World) (recs : List Audit) : Prop where
  laid : Laid AI_AUDIT_CAP (fun r _ => r) (fun _ => 0) w.auditAt recs
  head : w.auditHead = recs.length % AI_AUDIT_CAP
  total : w.auditTotal = min recs.length AI_AUDIT_CAP
  seq : w.auditSeq = UInt32.ofNat recs.length

theorem auditOk_init (w : World) : AuditOk (aiWorldInit w) [] where
  laid := laid_nil fun _ _ => rfl
  head := rfl
  total := rfl
  seq := rfl

/-- What `ai_audit_record` writes. -/
def entry (w : World) (action : Option CStr) (d : Decision) (taskId : Int) :
    Audit :=
  { seq := w.auditSeq + 1, action := cp action AI_NAME_MAX, decision := d
    taskId := taskId, used := true }

theorem AuditOk.record {w : World} {recs : List Audit} (h : AuditOk w recs)
    (action : Option CStr) (d : Decision) (taskId : Int) :
    AuditOk (aiAuditRecord w action d taskId)
      (recs ++ [entry w action d taskId]) := by
  have hlt : recs.length % AI_AUDIT_CAP < AI_AUDIT_CAP :=
    Nat.mod_lt _ (by decide)
  refine ⟨?_, ?_, ?_, ?_⟩
  · show Laid AI_AUDIT_CAP _ _ (w.setAudit w.auditHead _).auditAt _
    rw [h.head]
    refine h.laid.push (by decide) _ ?_ fun i _ hne => ?_
    · exact World.auditAt_setAudit_self hlt _
    · exact World.auditAt_setAudit_ne hne _
  · show (w.auditHead + 1) % AI_AUDIT_CAP = _
    rw [h.head, List.length_append, List.length_singleton, Nat.mod_add_mod]
  · show (if w.auditTotal < AI_AUDIT_CAP then _ else _) = _
    rw [h.total, List.length_append, List.length_singleton]
    split <;> omega
  · show w.auditSeq + 1 = _
    rw [h.seq, List.length_append, List.length_singleton, UInt32.ofNat_add]
    rfl

/-- A call that leaves the ring alone. -/
theorem AuditOk.congr {w v : World} {recs : List Audit} (h : AuditOk w recs)
    (haudit : v.audit = w.audit) (hhead : v.auditHead = w.auditHead)
    (htotal : v.auditTotal = w.auditTotal) (hseq : v.auditSeq = w.auditSeq) :
    AuditOk v recs where
  laid := by
    have hat : v.auditAt = w.auditAt := by
      funext i
      unfold World.auditAt
      rw [haudit]
    rw [hat]
    exact h.laid
  head := hhead.trans h.head
  total := htotal.trans h.total
  seq := hseq.trans h.seq

theorem AuditOk.policySet {w : World} {recs : List Audit}
    (h : AuditOk w recs) (perm : UInt32) (allow : Bool) :
    AuditOk (aiPolicySet w perm allow) recs := by
  unfold aiPolicySet
  cases allow with
  | true => exact h.congr rfl rfl rfl rfl
  | false => exact h.congr rfl rfl rfl rfl

theorem AuditOk.taskCreate {w : World} {recs : List Audit}
    (h : AuditOk w recs) (kind : TaskKind) (service : Int)
    (label : Option CStr) :
    AuditOk (aiTaskCreate w kind service label).1 recs := by
  unfold aiTaskCreate
  split
  · exact h.congr rfl rfl rfl rfl
  · exact h

theorem AuditOk.taskSetState {w : World} {recs : List Audit}
    (h : AuditOk w recs) (id : Int) (dst : TaskState) :
    AuditOk (aiTaskSetState w id dst).1 recs := by
  unfold aiTaskSetState
  split
  · exact h
  · split
    · exact h
    · exact h.congr rfl rfl rfl rfl

theorem AuditOk.serviceRegister {w : World} {recs : List Audit}
    (h : AuditOk w recs) (name endpoint : Option CStr) (kind : SvcKind)
    (status : Status) :
    AuditOk (aiServiceRegister w name endpoint kind status).1 recs := by
  unfold aiServiceRegister
  split
  · exact h.congr rfl rfl rfl rfl
  · exact h

theorem AuditOk.modelRegister {w : World} {recs : List Audit}
    (h : AuditOk w recs) (name : Option CStr) (role : Role)
    (state : ModelState) :
    AuditOk (aiModelRegister w name role state).1 recs := by
  unfold aiModelRegister
  split
  · exact h.congr rfl rfl rfl rfl
  · exact h

-- ============================================================ reading back

/-- A remainder that takes the sign of the dividend, corrected: the
remainder as the ring needs it. -/
theorem ring_index (x : Int) :
    (if x.tmod AI_AUDIT_CAP < 0 then x.tmod AI_AUDIT_CAP + AI_AUDIT_CAP
      else x.tmod AI_AUDIT_CAP) = x % 32 := by
  have hcap : (AI_AUDIT_CAP : Int) = 32 := rfl
  rw [hcap, Int.tmod_eq_emod]
  split <;> split <;> omega

/-- The read at distance `back` from the newest record. -/
theorem AuditOk.recent {w : World} {recs : List Audit} (h : AuditOk w recs)
    (back : Int) :
    aiAuditRecent w back
      = if 0 ≤ back ∧ back < min recs.length AI_AUDIT_CAP then
          recs[recs.length - 1 - back.toNat]?
        else none := by
  have hcap : AI_AUDIT_CAP = 32 := rfl
  unfold aiAuditRecent
  rw [h.total]
  by_cases hin : 0 ≤ back ∧ back < min recs.length AI_AUDIT_CAP
  · have hlt : recs.length - 1 - back.toNat < recs.length := by omega
    -- the slot of the record is that of its number
    have hidx : ((w.auditHead - 1 - back : Int) % 32).toNat
        = (recs.length - 1 - back.toNat) % AI_AUDIT_CAP := by
      rw [h.head, hcap]
      omega
    rw [if_neg (by omega), if_pos hin]
    dsimp only
    rw [ring_index, hidx, h.laid.recent _ hlt (by omega),
      List.getElem?_eq_getElem hlt]
  · rw [if_pos (by omega), if_neg hin]

theorem filterMap_range_getElem {α : Type*} (l : List α) :
    ∀ k, (List.range k).filterMap (fun i => l[i]?) = l.take k := by
  intro k
  induction k with
  | zero => rfl
  | succ k ih =>
      rw [List.range_succ, List.filterMap_append, ih, List.take_add_one]
      cases hk : l[k]? with
      | none => simp [hk]
      | some x => simp [hk]

/-- What the log shows, newest first. -/
def recents (w : World) : List Audit :=
  (List.range (aiAuditCount w)).filterMap fun i : Nat =>
    aiAuditRecent w i

theorem AuditOk.recents_eq {w : World} {recs : List Audit}
    (h : AuditOk w recs) : recents w = recs.reverse.take AI_AUDIT_CAP := by
  have hget : ∀ i < min recs.length AI_AUDIT_CAP,
      aiAuditRecent w i = recs.reverse[i]? := by
    intro i hi
    rw [h.recent, if_pos (by omega), List.getElem?_reverse (by omega)]
    rfl
  have hall : (List.range (min recs.length AI_AUDIT_CAP)).filterMap
        (fun i : Nat => aiAuditRecent w i)
      = (List.range (min recs.length AI_AUDIT_CAP)).filterMap
        fun i => recs.reverse[i]? :=
    List.filterMap_congr fun i hi => hget i (List.mem_range.mp hi)
  unfold recents aiAuditCount
  rw [h.total, hall, filterMap_range_getElem, List.take_eq_take_iff,
    List.length_reverse]
  omega

-- =============================================================== the claim

/-- One call of `ai_audit_record`. -/
structure Call where
  action : Option CStr
  decision : Decision
  taskId : Int

def recordCall (w : World) (c : Call) : World :=
  aiAuditRecord w c.action c.decision c.taskId

/-- The record of the call with the number `k`. -/
def recordOf (k : Nat) (c : Call) : Audit :=
  { seq := UInt32.ofNat k, action := cp c.action AI_NAME_MAX
    decision := c.decision, taskId := c.taskId, used := true }

/-- The records of a series of calls, which are numbered from 1. -/
def recordsOf (calls : List Call) : List Audit :=
  calls.mapIdx fun k c => recordOf (k + 1) c

theorem cp_eq_take (s : Option CStr) :
    cp s AI_NAME_MAX = (s.getD CStr.empty).take 27 := by
  cases s with
  | none => rfl
  | some s => rfl

theorem auditOk_calls (w₀ : World) (calls : List Call) :
    AuditOk (exec recordCall (aiWorldInit w₀) calls) (recordsOf calls) := by
  induction calls using List.reverseRecOn with
  | nil => exact auditOk_init w₀
  | append_singleton calls c ih =>
      have hlen : (recordsOf calls).length = calls.length :=
        List.length_mapIdx
      have heq : recordsOf (calls ++ [c]) = recordsOf calls
          ++ [entry (exec recordCall (aiWorldInit w₀) calls) c.action
            c.decision c.taskId] := by
        unfold entry
        rw [ih.seq, hlen]
        unfold recordsOf recordOf
        rw [List.mapIdx_concat, UInt32.ofNat_add]
        rfl
      rw [exec_append, heq]
      exact ih.record c.action c.decision c.taskId

/-- Over any series of calls the newest 32 records can be read, each at
its distance from the newest, and nothing else can. -/
theorem audit_ring (w₀ : World) (calls : List Call)
    (hlen : calls.length < 2 ^ 32) :
    let w := exec recordCall (aiWorldInit w₀) calls
    aiAuditCount w = min calls.length 32
      ∧ ∀ back : Int,
        (0 ≤ back → back < min calls.length 32 →
          ∃ c e, calls[calls.length - 1 - back.toNat]? = some c
            ∧ aiAuditRecent w back = some e
            ∧ (e.seq.toNat : Int) = calls.length - back
            ∧ e.action = (c.action.getD CStr.empty).take 27
            ∧ e.decision = c.decision ∧ e.taskId = c.taskId)
        ∧ (¬(0 ≤ back ∧ back < min calls.length 32) →
          aiAuditRecent w back = none) := by
  intro w
  have h : AuditOk w (recordsOf calls) := auditOk_calls w₀ calls
  have hn : (recordsOf calls).length = calls.length := List.length_mapIdx
  have hcap : AI_AUDIT_CAP = 32 := rfl
  refine ⟨?_, fun back => ⟨fun hlo hhi => ?_, fun hout => ?_⟩⟩
  · show w.auditTotal = _
    rw [h.total, hn, hcap]
  · have hlt : calls.length - 1 - back.toNat < calls.length := by omega
    have hread := h.recent back
    unfold recordsOf at hread
    rw [List.length_mapIdx, if_pos ⟨hlo, by rw [hcap]; exact hhi⟩,
      List.getElem?_mapIdx, List.getElem?_eq_getElem hlt,
      Option.map_some] at hread
    refine ⟨calls[calls.length - 1 - back.toNat], _,
      List.getElem?_eq_getElem hlt, hread, ?_, cp_eq_take _, rfl, rfl⟩
    have hseq : calls.length - 1 - back.toNat + 1 < UInt32.size := by
      show _ < 2 ^ 32
      omega
    show ((UInt32.ofNat _).toNat : Int) = _
    rw [UInt32.toNat_ofNat_of_lt' hseq]
    omega
  · rw [h.recent back, if_neg]
    rw [hn, hcap]
    exact hout

/-- Forty calls: the record of call 9 is the oldest one left. -/
theorem audit_ring_forty :
    let calls := (List.range 40).map fun k => Call.mk none .deny k
    (calls.length < 2 ^ 32)
      ∧ ∃ c e, calls[8]? = some c
        ∧ aiAuditRecent (exec recordCall (aiWorldInit World.zero) calls) 31
          = some e ∧ (e.seq.toNat : Int) = 9 ∧ e.taskId = 8 := by
  intro calls
  have hlen : calls.length < 2 ^ 32 := by decide
  obtain ⟨c, e, hc, he, hseq, -, -, hid⟩ :=
    ((audit_ring World.zero calls hlen).2 31).1 (by decide) (by decide)
  have hc8 : calls[8]? = some c := hc
  obtain rfl := Option.some.inj hc8
  exact ⟨hlen, _, e, rfl, he, hseq, hid⟩

end Thuos.Ai
