/-
# `Loca.Hub.Step` — the server as a machine

Every call of the Hub that touches a room, in any order, with any arguments, at any clock
value, with any call to the store failing, between restarts.  A post is the one operation
that other operations can come between: it looks the operation up, resolves the cited
files and only then locks the rooms, so the server holds a list of posts on their way and
any of them may take its next step at any time.  A restart forgets them.

`outside` stands for the rest of the server: uploads, reactions, memory, the wiki, operator
appointments and identities write tables of their own, and may leave anything there.
-/
import Loca.Base.Run
import Loca.Hub.Build
import Loca.Hub.Sweep

namespace Loca

open Check

inductive HubCall
  | createTask (room : String) (req : CreateTask)
  | updateTask (room : String) (id : Nat) (req : UpdateTask) (isOperator : Bool)
  | createGoal (room : String) (req : CreateGoal)
  | updateGoal (room : String) (id : Nat) (req : UpdateGoal)
  | setWait (room : String) (req : SetWait)
  | clearWait (room waiter : String)
  | setLead (room : String) (lead : Option String) (actor : String)
  | announceJoinRequest (name kind : String)
  | setMode (room : String) (mode : ChatMode) (clock : Nat)
  | setSettings (room : String) (req : SetSettings) (clock : Nat)
  | expireLive (clock : Nat)
  | createNote (room : String) (req : CreateNote)
  | updateNote (room key : String) (req : UpdateNote) (isOperator : Bool)
  | deleteNote (room key : String)
  | appendJournal (room entryBy : String) (byType : SenderType) (text : String)
  | createAttention (room : String) (req : CreateAttention)
  | claimAttention (room id actor : String)
  | resolveAttention (room id actor : String) (principal : Option String) (isOperator : Bool)
  | ackCare (signalId owner : String) (principal : Option String)
  | tickCare
  | createLoca (room : String) (actor : RequestAuthority) (clock : Nat)
  | deleteRoom (room : String)
  | subscribe (room : String)
  | join (room identity name : String) (kind : SenderType) (session : Nat)
  | leave (room identity : String)
  | admitMember (name kind admittedBy : String)
  | inviteMemberToRoom (member room issuedBy : String)
  | revokeDavet (token : String)
  | revokeMember (token : String)
  | moderate (room : String) (action : ModAction) (name : String)
  | outside (db : Db)

inductive HubAnswer
  | refused
  /-- A post that is on its way. -/
  | pending
  /-- An accepted post, with its request. -/
  | posted (q : PostRequest) (m : Message)
  | task (t : Task)
  | goal (g : Goal)
  | wait (w : WaitState)
  | note (room : String) (n : Note)
  | entry (e : JournalEntry)
  | attention (a : Attention)
  | moderated (room : String) (s : ModState)
  /-- Anything else that was done. -/
  | done
  deriving DecidableEq, Repr

/-- The answer of an operation that may refuse. -/
def answered {ε α : Type} (f : α → HubAnswer) (x : Except ε α × World) : HubAnswer × World :=
  (match x.1 with
    | .ok a => f a
    | .error _ => .refused, x.2)

/-- The tables no operation of the Hub writes are taken over from `other`. -/
def Db.outside (other db : Db) : Db :=
  { db with
    reactions := other.reactions
    credentials := other.credentials
    principals := other.principals
    operators := other.operators
    operatorSeq := other.operatorSeq
    memory := other.memory
    memoryEntries := other.memoryEntries
    attachmentBlobs := other.attachmentBlobs
    attachmentPending := other.attachmentPending
    attachmentRefs := other.attachmentRefs
    wikis := other.wikis
    wikiRuntimes := other.wikiRuntimes
    contextSelections := other.contextSelections
    contextReceipts := other.contextReceipts }

def HubCall.run (cfg : Config) (env : Env) (w : World) : HubCall → HubAnswer × World
  | .createTask room req => answered .task (Loca.createTask cfg env room req w)
  | .updateTask room id req isOperator =>
      answered .task (Loca.updateTask cfg env room id req isOperator w)
  | .createGoal room req => answered .goal (Loca.createGoal cfg env room req w)
  | .updateGoal room id req => answered .goal (Loca.updateGoal cfg env room id req w)
  | .setWait room req => answered .wait (Loca.setWait cfg env room req w)
  | .clearWait room waiter => answered (fun _ => .done) (Loca.clearWait cfg env room waiter w)
  | .setLead room lead actor => answered (fun _ => .done) (Loca.setLead cfg env room lead actor w)
  | .announceJoinRequest name kind => (.done, Loca.announceJoinRequest cfg env name kind w)
  | .setMode room mode clock => answered (fun _ => .done) (Loca.setMode cfg env room mode clock w)
  | .setSettings room req clock =>
      answered (fun _ => .done) (Loca.setSettings cfg env room req clock w)
  | .expireLive clock => (.done, Loca.expireLive cfg env clock w)
  | .createNote room req => answered (.note room) (Loca.createNote cfg env room req w)
  | .updateNote room key req isOperator =>
      answered (.note room) (Loca.updateNote cfg env room key req isOperator w)
  | .deleteNote room key => answered (fun _ => .done) (Loca.deleteNote cfg env room key w)
  | .appendJournal room entryBy byType text =>
      answered .entry (Loca.appendJournal cfg env room entryBy byType text w)
  | .createAttention room req => answered .attention (Loca.createAttention cfg env room req w)
  | .claimAttention room id actor => answered .attention (Loca.claimAttention cfg env room id actor w)
  | .resolveAttention room id actor principal isOperator =>
      answered .attention (Loca.resolveAttention cfg env room id actor principal isOperator w)
  | .ackCare signalId owner principal =>
      answered (fun _ => .done) (Loca.ackCare cfg env signalId owner principal w)
  | .tickCare => (.done, Loca.tickCare cfg env w)
  | .createLoca room actor clock =>
      answered (fun _ => .done) (Loca.createLoca cfg env room actor clock w)
  | .deleteRoom room => answered (fun _ => .done) (Loca.deleteRoom cfg env room w)
  | .subscribe room => (.done, (Loca.subscribe cfg room w).2)
  | .join room identity name kind session => (.done, (Loca.join cfg room identity name kind session w).2)
  | .leave room identity => (.done, Loca.leave room identity w)
  | .admitMember name kind admittedBy =>
      answered (fun _ => .done) (Loca.admitMember cfg env name kind admittedBy w)
  | .inviteMemberToRoom member room issuedBy =>
      answered (fun _ => .done) (Loca.inviteMemberToRoom cfg env member room issuedBy w)
  | .revokeDavet token => answered (fun _ => .done) (Loca.revokeDavet cfg env token w)
  | .revokeMember token => answered (fun _ => .done) (Loca.revokeMember cfg env token w)
  | .moderate room action name =>
      answered (.moderated room) (Loca.moderate cfg env room action name w)
  | .outside db => (.done, w.setDb (db.outside w.db))

/-! ## Posts on their way -/

inductive PostPhase
  /-- The archive did not know the operation. -/
  | lookedUp (q : PostRequest)
  | cited (q : PostRequest) (attachments : List Attachment)
  deriving DecidableEq, Repr

structure Server where
  world : World
  posts : List PostPhase

inductive HubInput
  | call (env : Env) (c : HubCall)
  | post (env : Env) (q : PostRequest)
  /-- The `i`-th post on its way takes its next step. -/
  | advance (env : Env) (i : Nat)
  | restart (env : Env) (clock : Nat)

/-- The next step of a post on its way. -/
def PostPhase.advance (cfg : Config) (env : Env) (w : World) :
    PostPhase → HubAnswer × Option PostPhase × World
  | .lookedUp q =>
      match resolveAttachments env q.room q.body.attachments w.db with
      | .error _ => (.refused, none, w)
      | .ok attachments => (.pending, some (.cited q attachments), w)
  | .cited q attachments =>
      let x := answered (.posted q) (postLocked cfg env q attachments w)
      (x.1, none, x.2)

def Server.step (cfg : Config) (s : Server) : HubInput → HubAnswer × Server
  | .call env c =>
      let x := c.run cfg env s.world
      (x.1, { s with world := x.2 })
  | .post env q =>
      match lookUp cfg env q s.world with
      | .error _ => (.refused, s)
      | .ok (some m) => (.posted q m, s)
      | .ok none => (.pending, { s with posts := s.posts ++ [.lookedUp q] })
  | .advance env i =>
      match s.posts[i]? with
      | none => (.refused, s)
      | some p =>
        let x := p.advance cfg env s.world
        (x.1, ⟨x.2.2, match x.2.1 with
          | some p' => s.posts.set i p'
          | none => s.posts.eraseIdx i⟩)
  | .restart env clock => (.done, ⟨restart cfg env clock s.world, []⟩)

/-- A server started on an empty database. -/
def serverInit (cfg : Config) (s : Server) : Prop :=
  ∃ env clock, s = ⟨build cfg env clock {}, []⟩

def hubMachine (cfg : Config) : Sys.Machine Server HubInput HubAnswer where
  init := serverInit cfg
  step := Server.step cfg

/-- Every run: any call, any post, any restart, any failure. -/
abbrev anyHubInput (_ : Server) (_ : HubInput) : Prop := True

/-! ## One step -/

/-- What a step does to the world: nothing, a call, the locked part of a post, or a restart. -/
theorem serverStep_world (cfg : Config) (s : Server) (i : HubInput) :
    (s.step cfg i).2.world = s.world ∨
    (∃ env c, i = .call env c ∧ s.step cfg i = ((c.run cfg env s.world).1,
      { s with world := (c.run cfg env s.world).2 })) ∨
    (∃ env k q attachments posts, i = .advance env k ∧ s.posts[k]? = some (.cited q attachments) ∧
      s.step cfg i = ((answered (.posted q) (postLocked cfg env q attachments s.world)).1,
        ⟨(postLocked cfg env q attachments s.world).2, posts⟩)) ∨
    (∃ env clock, i = .restart env clock ∧
      s.step cfg i = (.done, ⟨restart cfg env clock s.world, []⟩)) := by
  cases i with
  | call env c => exact .inr (.inl ⟨env, c, rfl, rfl⟩)
  | restart env clock => exact .inr (.inr (.inr ⟨env, clock, rfl, rfl⟩))
  | post env q =>
      left
      simp only [Server.step]
      split <;> rfl
  | advance env k =>
      simp only [Server.step]
      split
      · exact .inl rfl
      · next p hp =>
        cases p with
        | lookedUp q =>
            left
            simp only [PostPhase.advance]
            split <;> rfl
        | cited q attachments =>
            exact .inr (.inr (.inl ⟨env, k, q, attachments, _, rfl, hp, rfl⟩))

/-- The accepted posts of a step: from the archive, or under the lock. -/
theorem serverStep_posted {cfg : Config} {s : Server} {i : HubInput} {q : PostRequest} {m : Message}
    (h : (s.step cfg i).1 = .posted q m) :
    (∃ env, i = .post env q ∧ lookUp cfg env q s.world = .ok (some m) ∧ (s.step cfg i).2 = s) ∨
    (∃ env k attachments, i = .advance env k ∧ s.posts[k]? = some (.cited q attachments) ∧
      (postLocked cfg env q attachments s.world).1 = .ok m ∧
      (s.step cfg i).2.world = (postLocked cfg env q attachments s.world).2) := by
  cases i with
  | restart env clock => cases h
  | call env c =>
      exfalso
      have hans : ∀ {ε α : Type} {f : α → HubAnswer} {x : Except ε α × World},
          (∀ a, f a ≠ .posted q m) → (answered f x).1 ≠ .posted q m := by
        intro ε α f x hf
        unfold answered
        cases x.1 with
        | error e => simp
        | ok a => exact hf a
      simp only [Server.step] at h
      revert h
      cases c <;> first | exact hans (fun _ => by simp) | simp [HubCall.run]
  | post env q' =>
      simp only [Server.step] at h ⊢
      split at h
      · cases h
      · next m' hl =>
        cases h
        exact .inl ⟨env, rfl, hl, rfl⟩
      · cases h
  | advance env k =>
      simp only [Server.step] at h ⊢
      split at h
      · cases h
      · next p hp =>
        cases p with
        | lookedUp q' =>
            simp only [PostPhase.advance] at h
            split at h <;> cases h
        | cited q' attachments =>
            simp only [PostPhase.advance, answered] at h
            split at h
            · next a ha =>
              cases h
              exact .inr ⟨env, k, attachments, rfl, hp, ha, rfl⟩
            · cases h

end Loca
