/-
# `Loca.Hub.Attention` — who is called, and what they do about it

`hub/attention/owner.rs` and `lifecycle.rs`: the choice of the one owner a signal goes to,
and the explicit steps of an attention's life (create, claim, resolve, acknowledge).
-/
import Loca.Hub.Work

namespace Loca

open Check Text

/-! ## Owners -/

/-- The davets of a room that still have a live membership: the member token and the name. -/
def World.roster (room : String) (w : World) : List (String × String) :=
  (w.hub.invites.values.filter fun i => i.room = room && i.member ≠ "").filterMap fun i =>
    (w.hub.members.get i.member).map fun m => (i.member, m.name)

/-- `principal_id_for_member_record`; unreadable counts as absent. -/
def World.principalOf (cfg : Config) (env : Env) (member : String) (w : World) : Option String :=
  if env.fails (.principalId member) then none
  else principalIdForMemberRecord cfg.digests member w.db

/-- `everyone_recipients`: the whole roster by principal, or nothing when one is unknown. -/
def World.everyoneRecipients (cfg : Config) (env : Env) (room : String) (w : World) :
    Option (List (String × String)) := do
  let resolved ← (w.roster room).mapM fun (member, name) =>
    (w.principalOf cfg env member).map fun principal => (principal, name)
  let distinct := resolved.foldl (fun out e =>
    if out.any fun o => o.1 = e.1 then out else out ++ [e]) []
  pure (Table.orderBy Prod.fst (Table.orderBy Prod.snd distinct))

/-- `everyone_recipient_active`: the principal still holds a davet with a live membership. -/
def World.recipientActive (cfg : Config) (env : Env) (room principal : String) (w : World) : Bool :=
  (w.roster room).any fun (member, _) => w.principalOf cfg env member = some principal

/-- The names a room's reminders may go to, in order of preference. -/
def Room.careCandidates (r : Room) : List String :=
  match r.settings.careRecipient with
  | .lead => r.settings.lead.toList
  | .person name => [name]
  | .all => match r.settings.lead with
    | some lead => lead :: r.liveNames.filter fun name => name ≠ lead
    | none => r.liveNames

/-- `care_owner`: a seated candidate with a healthy adapter, else the caretaker at home. -/
def World.careOwner (cfg : Config) (env : Env) (room : String) (w : World) : Option String := do
  let r ← w.room? room
  match r.careCandidates.find? fun name => r.seated name && env.ready name with
  | some name => some name
  | none =>
    if cfg.caretakers.contains "loca-care" then do
      let home ← w.room? cfg.homeRoom
      if home.seated "loca-care" && env.ready "loca-care" then some "loca-care" else none
    else none

/-- `resolve_attention_owner`: the owner of a manual attention, and whom it concerns. -/
def Room.attentionOwner (env : Env) (audience : AttentionAudience) (r : Room) :
    Option (String × List String) :=
  match audience with
  | .lead => r.settings.lead.map fun lead => (lead, [lead])
  | .person name => if trim name ≠ "" then some (trim name, [trim name]) else none
  | .group names =>
    let names := (Table.orderBy id ((names.map trim).filter fun n => n ≠ "")).dedup
    match names.find? fun n => r.seated n && env.ready n with
    | some owner => some (owner, names)
    | none => names.head?.map fun owner => (owner, names)

/-! ## The life of an attention -/

inductive AttentionError | notFound | noRecipient | forbidden | conflict | storage
  deriving DecidableEq, Repr

def manualSignal (env : Env) (room : String) (req : CreateAttention) (owner : String)
    (participants : List String) (r : Room) : CareSignal where
  id := "delivery_" ++ env.token room "manual delivery"
  attentionId := "att_" ++ env.token room "manual"
  room := room
  sourceRoom := ""
  reason := .manual
  audience := req.audience
  owner := some owner
  ownerPrincipalId := none
  group := none
  target := some owner
  participants := participants
  subject := req.subject
  createdBy := req.attentionBy
  context := r.careContext
  attempt := 1
  signalAt := env.now
  escalated := false
  state := .running

def createAttention (cfg : Config) (env : Env) (room : String) (req : CreateAttention) (w : World) :
    Except AttentionError Attention × World :=
  match w.room? room with
  | none => (.error .notFound, w)
  | some r =>
    match r.attentionOwner env req.audience with
    | none => (.error .noRecipient, w)
    | some (owner, participants) =>
      let s := manualSignal env room req owner participants r
      match w.store cfg env .write (fun db => .ok (db.withCare (db.care.writeCare room s))) with
      | .error _ => (.error .storage, w)
      | .ok w =>
        let a := World.readAttention env w.db s
        (.ok a, ((w.noteDelivery s).setRoom room
          { r with attentions := r.attentions.put a.id a }).send room [.attention a, .care s])

/-- A write that reports whether it changed a row; without a database it reports `blank`. -/
def World.storeCare (cfg : Config) (env : Env) (blank : Bool) (tx : CareTables → Bool × CareTables)
    (w : World) : Except StoreError (Bool × World) :=
  if cfg.persistent then
    if env.fails .write then .error .failed
    else .ok ((tx w.db.care).1, w.setDb (w.db.withCare (tx w.db.care).2))
  else .ok (blank, w)

def Attention.claim (actor : String) (now : Nat) (a : Attention) : Attention :=
  { a with status := .claimed, claimedBy := some actor, claimedAt := some now }

def claimAttention (cfg : Config) (env : Env) (room id actor : String) (w : World) :
    Except AttentionError Attention × World :=
  match (w.room? room).bind fun r => (r.attentions.get id).map fun a => (r, a) with
  | none => (.error .notFound, w)
  | some (r, a) =>
    if a.owner ≠ some actor then (.error .forbidden, w)
    else if a.status ≠ .opened then (.error .conflict, w)
    else match w.storeCare cfg env true (CareTables.claimAttention id actor env.now) with
      | .error _ => (.error .storage, w)
      | .ok (false, w) => (.error .conflict, w)
      | .ok (true, w) =>
        let a := a.claim actor env.now
        (.ok a, (w.setRoom room { r with attentions := r.attentions.put id a }).send room
          [.attention a])

/-- May the actor settle it?  The principal in the ledger decides where there is one. -/
def Attention.settledBy (actor : String) (principal : Option String)
    (scope : Option (Option String)) (a : Attention) : Bool :=
  match scope with
  | some (some p) => principal = some p
  | some none => a.owner = some actor || a.claimedBy = some actor
  | none => a.group.isNone && (a.owner = some actor || a.claimedBy = some actor)

def resolveAttention (cfg : Config) (env : Env) (room id actor : String) (principal : Option String)
    (isOperator : Bool) (w : World) : Except AttentionError Attention × World :=
  match (w.room? room).bind fun r => (r.attentions.get id).map fun a => (r, a) with
  | none => (.error .notFound, w)
  | some (r, a) =>
    if !isOperator && cfg.persistent && env.fails (.attention id) then (.error .storage, w)
    else if !isOperator && !a.settledBy actor principal (w.db.care.attentionOwnerPrincipalId id) then
      (.error .forbidden, w)
    else if a.status = .resolved then (.error .conflict, w)
    else match w.storeCare cfg env true (CareTables.resolveAttention id env.now) with
      | .error _ => (.error .storage, w)
      | .ok (false, w) => (.error .conflict, w)
      | .ok (true, w) =>
        let a := a.resolve env.now
        (.ok a, (w.setRoom room { r with attentions := r.attentions.put id a }).send room
          [.attention a])

/-- `Hub::pending_care_scoped`: a delivery bound to a principal is sent again only while that
principal still belongs to the room.  A store without a database has none. -/
def World.pendingCareScoped (cfg : Config) (env : Env) (deliveryRoom owner : String)
    (principal : Option String) (w : World) : List CareSignal :=
  if cfg.persistent then
    (w.db.care.pendingCareScoped deliveryRoom owner principal).filter fun s =>
      s.ownerPrincipalId.all fun pid => w.recipientActive cfg env deliveryRoom pid
  else []

/-- The first room, in the order met, that holds the attention. -/
def World.holder (env : Env) (id : String) (w : World) : Option (String × Room × Attention) :=
  (Assoc.inOrder env.order w.hub.rooms.keys).findSome? fun name =>
    (w.room? name).bind fun r => (r.attentions.get id).map fun a => (name, r, a)

def ackCare (cfg : Config) (env : Env) (signalId owner : String) (principal : Option String)
    (w : World) : Except StoreError Bool × World :=
  let hot := w.hub.careDeliveries.get signalId
  match hot.orElse fun _ => w.db.care.attentionIdForDelivery signalId with
  | none => (.ok false, w)
  | some attentionId =>
    let held := w.holder env attentionId
    let attention := (held.map fun h => h.2.2).orElse fun _ => w.db.care.attention attentionId
    if attention.bind Attention.owner ≠ some owner then (.ok false, w)
    else match w.storeCare cfg env false
        (CareTables.ackCareScoped signalId owner principal env.now) with
      | .error e => (.error e, w)
      | .ok (acked, w) =>
        let acked := acked || (!cfg.persistent && hot.isSome &&
          held.any fun h => h.2.2.deliveredAt.isNone)
        if acked then
          let w := { w with hub := { w.hub with
            careDeliveries := w.hub.careDeliveries.del signalId } }
          match held with
          | none => (.ok true, w)
          | some (name, r, a) =>
            let a := { a with deliveredAt := some (a.deliveredAt.getD env.now) }
            (.ok true, (w.setRoom name
              { r with attentions := r.attentions.put attentionId a }).send name [.attention a])
        else (.ok false, w)

end Loca
