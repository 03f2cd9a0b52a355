/-
# `Loca.Hub.Memory` — a room's care in memory

What a room holds of its reminders is two maps: the counters and the attentions.  This module
takes them out of the room record (`Room.care`) and says what each operation does to them, in
the words of the care tables: `reset` answers `CareTables.resetCare`, `resolveWait` answers
`CareTables.resolveWaitAttentions`, `file` the filing of a signal.
-/
import Loca.Hub.Spoken
import Loca.Hub.Sweep

namespace Loca

open Text

/-- The reminder counters and the attentions of a room. -/
@[ext]
structure CareMemory where
  marks : Assoc String CareMark
  attentions : Assoc String Attention

def Room.care (r : Room) : CareMemory := ⟨r.careMarks, r.attentions⟩

namespace CareMemory

def resolveWhere (hit : String → Attention → Bool) (now : Nat) (m : CareMemory) : CareMemory :=
  { m with
    attentions := m.attentions.mapVal fun id a =>
      if hit id a && a.status ≠ .resolved then a.resolve now else a }

def reset (room key : String) (now : Nat) (m : CareMemory) : CareMemory :=
  resolveWhere (conditionHit room key) now { m with marks := m.marks.del key }

/-- The unresolved wait cycles that end with the participant's wait. -/
def cycles (room waiter : String) (m : CareMemory) : List ((_ : String) × Attention) :=
  m.attentions.entries.filter fun e =>
    waitHit room waiter e.1 e.2 && e.2.status ≠ .resolved && e.2.reason = .waitCycle

def dropMark (room id : String) (marks : Assoc String CareMark) : Assoc String CareMark :=
  match stripPrefix (attentionPrefix room) id with
  | some key => marks.del key
  | none => marks

def resolveWait (room waiter : String) (now : Nat) (m : CareMemory) : CareMemory :=
  resolveWhere (waitHit room waiter) now
    { m with marks := (m.cycles room waiter).foldl (fun marks e => dropMark room e.1 marks) m.marks }

def file (a : Attention) (m : CareMemory) : CareMemory :=
  { m with attentions := m.attentions.put a.id a }

theorem get_resolveWhere (hit : String → Attention → Bool) (now : Nat) (m : CareMemory) (id : String) :
    (m.resolveWhere hit now).attentions.get id = (m.attentions.get id).map fun a =>
      if hit id a && a.status ≠ .resolved then a.resolve now else a :=
  Assoc.get_mapVal _ id m.attentions

/-- The marks that are left are those no dropped id names. -/
theorem get_dropMarks {room key : String} {mark : CareMark} {l : List ((_ : String) × Attention)}
    {marks : Assoc String CareMark} :
    (l.foldl (fun marks e => dropMark room e.1 marks) marks).get key = some mark ↔
      marks.get key = some mark ∧ ∀ e ∈ l, e.1 ≠ attentionKey room key := by
  induction l generalizing marks with
  | nil => simp
  | cons e l ih =>
      have hone : (dropMark room e.1 marks).get key = some mark ↔
          marks.get key = some mark ∧ e.1 ≠ attentionKey room key := by
        unfold dropMark
        cases hs : stripPrefix (attentionPrefix room) e.1 with
        | some k =>
            have he := stripPrefix_eq_some.mp hs
            have hk : e.1 = attentionKey room key ↔ key = k := by
              constructor
              · intro heq
                rw [heq, attentionKey, stripPrefix_append] at hs
                exact Option.some.inj hs
              · rintro rfl
                exact he
            show (marks.del k).get key = some mark ↔ _
            rw [Assoc.get_del]
            by_cases hkk : key = k
            · simp [hkk, hk.mpr hkk]
            · simp [hkk, mt hk.mp hkk]
        | none =>
            have hne : e.1 ≠ attentionKey room key := by
              intro heq
              rw [heq, attentionKey, stripPrefix_append] at hs
              cases hs
            simp [hne]
      rw [List.foldl_cons, ih, hone, List.forall_mem_cons, and_assoc]

end CareMemory

/-! ## What the operations do to it -/

/-- A room's care after an accepted post. -/
def PostDraft.memory (env : Env) (q : PostRequest) (db : Db) (d : PostDraft) (m : CareMemory) :
    CareMemory :=
  let m := d.summons.foldl (fun m s => m.file (World.readAttention env db s))
    (m.reset q.room "silence" d.msg.ts)
  match d.wake with
  | some p => (m.resolveWait q.room p.1.waiter env.now).file (World.readAttention env db p.2)
  | none => m

end Loca
