/-
# `Loca.Listener.Backfill` — recovering what was missed

`addresses` and `backfill_pages` of `listen.py`, over the answers of `GET messages`
(`get_messages` of `routes/rooms.rs`, `Hub::messages_after`).  The archive is read page by
page and every message is tested again, by a copy of the server's own rule.

The copy and the original agree on a message exactly when none of five things happens
(`Agrees`): the participant has no name; the message only answers it, and the archive does
not say whom a message answers; it calls all where the server lets nobody be called; one of the
two languages reads a mention in the text where the other does not.
-/
import Loca.Adapter.Inbox
import Loca.Hub.Build
import Loca.Hub.Refusal
import Loca.Socket.Filter

namespace Loca

open Adapter Check Table

/-! ## The wire -/

def attachmentJson (a : Attachment) : Json :=
  .obj [("id", .str a.id), ("sha256", .str a.sha256), ("name", .str a.name), ("mime", .str a.mime),
    ("size", .int a.size)]

/-- The fields of a message on the wire; what is absent is left out. -/
def messageFields (m : Message) : List (String × Json) :=
  [("id", .int m.id), ("room", .str m.room), ("sender", .str m.sender),
    ("sender_type", .str (senderTypeStr m.senderType))] ++
  (m.target.map fun t => ("target", Json.str t)).toList ++
  [("text", .str m.text)] ++
  (if m.kind = .say then [] else [("kind", .str (kindStr m.kind))]) ++
  (m.replyTo.map fun id => ("reply_to", Json.int id)).toList ++
  (m.replyToSender.map fun s => ("reply_to_sender", Json.str s)).toList ++
  [("ts", .int m.ts)] ++
  (if m.attachments = [] then [] else [("attachments", .arr (m.attachments.map attachmentJson))])

def messageJson (m : Message) : Json := .obj (messageFields m)

def World.recentMessages (room : String) (w : World) : List Message :=
  ((w.room? room).map Room.history).getD []

/-- `Hub::messages_after`: the archive, or the tail when there is none. -/
def World.messagesAfter (cfg : Config) (room : String) (since limit : Nat) (w : World) :
    List Message :=
  if cfg.persistent then Loca.messagesAfter room since limit w.db
  else ((w.recentMessages room).filter fun m => since < m.id).take limit

/-- `GET messages`; a cursor the server cannot read asks for the recent ones. -/
def getMessages (cfg : Config) (room : String) (since : Int) (limit : Nat) (w : World) : Json :=
  .arr (((if since < 0 then w.recentMessages room
    else w.messagesAfter cfg room since.toNat (max 1 (min limit 1000)))).map messageJson)

/-! ## The listener's copy of the rule -/

/-- What the listener takes from its runtime beyond what the queue reader does. -/
structure Interpreter extends Python where
  lower : String → String
  isalnum : Char → Bool

namespace Interpreter

/-- `int(value)`. -/
def int (py : Interpreter) : Json → Except String Int
  | .int n => .ok n
  | j => py.toInt j

def wordChar (py : Interpreter) (c : Char) : Bool := py.isalnum c || c = '@' || c = '-' || c = '_'

/-- The loop over the characters: is one of the words that end before the last one wanted? -/
def scan (py : Interpreter) (wanted : String → Bool) : List Char → List Char → Bool
  | [], _ => false
  | c :: rest, tok =>
    if py.wordChar c then py.scan wanted rest (tok ++ [c])
    else wanted (String.ofList tok) || py.scan wanted rest []

/-- The word stands in the text, as the listener reads it. -/
def reads (py : Interpreter) (text word : String) : Bool :=
  py.scan (fun tok => tok = word) ((py.lower text).toList ++ [' ']) []

/-- `addresses(m, name)`. -/
def addresses (py : Interpreter) (m : List (String × Json)) (name : String) : Except String Bool :=
  if (Json.field "target" m).any fun t => t.isStr name || t.isStr "all" then .ok true
  else
    match (Json.field "text" m).getD (.str "") with
    | .str text => .ok (py.scan (fun tok => tok = "@" ++ py.lower name || tok = "@all")
        ((py.lower text).toList ++ [' ']) [])
    | _ => .error "AttributeError"

end Interpreter

/-! ## The pages -/

/-- The options of one listener. -/
structure Listener where
  name : String
  mentionsOnly : Bool
  skipOwn : Option String

/-- How reading the pages ended. -/
inductive Ending
  | finished
  /-- `BackfillError`. -/
  | failed (message : String)
  | raised (kind : String)
  /-- The bound on the number of pages was met. -/
  | unfinished
  deriving DecidableEq, Repr

def backfillPageSize : Nat := 200

/-- `m.get` of something that is no dict raises. -/
def dictOf : Json → Except String (List (String × Json))
  | .obj fields => .ok fields
  | _ => .error "AttributeError"

def recordId (py : Interpreter) (j : Json) : Except String Int := do
  let m ← dictOf j
  match Json.given "id" m with
  | none => pure 0
  | some id => py.int id

/-- Is a recovered message for this listener? -/
def Listener.keeps (py : Interpreter) (l : Listener) (isLead : Bool) (j : Json) :
    Except String Bool := do
  let m ← dictOf j
  if l.skipOwn.any fun own => own ≠ "" && (Json.field "sender" m).any (Json.isStr own) then pure false
  else if l.mentionsOnly && l.name ≠ "" && !isLead then py.addresses m l.name
  else pure true

def Listener.eligible (py : Interpreter) (l : Listener) (isLead : Bool) :
    List Json → Except String (List Json)
  | [] => .ok []
  | j :: msgs => do
    let kept ← l.keeps py isLead j
    let rest ← l.eligible py isLead msgs
    pure (if kept then j :: rest else rest)

/-- `backfill_pages`, for at most `fuel` requests: the pages yielded and how it ended. -/
def Listener.backfillPages (py : Interpreter) (l : Listener) (isLead : Bool)
    (fetch : Int → Except String Json) : Nat → Int → List (Int × List Json) × Ending
  | 0, _ => ([], .unfinished)
  | fuel + 1, cursor =>
    match fetch cursor with
    | .error e => ([], .failed ("backfill failed: " ++ e))
    | .ok (.arr []) => ([], .finished)
    | .ok (.arr msgs) =>
      match msgs.mapM (recordId py) with
      | .error kind => ([], .raised kind)
      | .ok ids =>
        let pageCursor := ids.max?.getD 0
        if pageCursor ≤ cursor then ([], .failed "backfill failed: server page did not advance")
        else
          match l.eligible py isLead msgs with
          | .error kind => ([], .raised kind)
          | .ok eligible =>
            if msgs.length < backfillPageSize then ([(pageCursor, eligible)], .finished)
            else
              let (pages, ending) := l.backfillPages py isLead fetch fuel pageCursor
              ((pageCursor, eligible) :: pages, ending)
    | .ok _ => ([], .failed "backfill failed: server returned non-list JSON")

/-! ## A message of the server, read by the listener -/

section Reading

variable (py : Interpreter) (l : Listener) (m : Message)

theorem Interpreter.scan_or (p q : String → Bool) (text tok : List Char) :
    py.scan (fun t => p t || q t) text tok = (py.scan p text tok || py.scan q text tok) := by
  induction text generalizing tok with
  | nil => rfl
  | cons c text ih =>
      simp only [Interpreter.scan]
      split
      · exact ih _
      · rw [ih]
        simp only [Bool.or_assoc, Bool.or_left_comm]

@[simp] theorem field_target : Json.field "target" (messageFields m) = m.target.map Json.str := by
  cases ht : m.target with
  | some t => simp [Json.field, messageFields, ht]
  | none =>
      cases hr : m.replyTo <;> cases hs : m.replyToSender <;> cases hk : m.kind <;>
        by_cases ha : m.attachments = [] <;> simp [Json.field, messageFields, ht, hr, hs, hk, ha]

@[simp] theorem field_text : Json.field "text" (messageFields m) = some (.str m.text) := by
  cases h : m.target <;> simp [Json.field, messageFields, h]

@[simp] theorem field_sender : Json.field "sender" (messageFields m) = some (.str m.sender) := by
  simp [Json.field, messageFields]

@[simp] theorem field_id : Json.field "id" (messageFields m) = some (.int m.id) := by
  simp [Json.field, messageFields]

theorem recordId_messageJson : recordId py (messageJson m) = .ok (m.id : Int) := by
  simp only [recordId, messageJson, dictOf, ok_bind, Json.given, field_id]
  by_cases h : m.id = 0
  · simp [h, Option.filter, Json.truthy, pure, Except.pure]
  · simp [h, Option.filter, Json.truthy, Interpreter.int]

/-- The listener's own words, when it leaves them out. -/
def Listener.skips : Bool := l.skipOwn.any fun own => own ≠ "" && m.sender = own

/-- The listener's test on a message of the server. -/
def Listener.recovers : Bool :=
  !l.skips m && (!l.mentionsOnly || l.name = "" || m.target = some l.name || m.target = some "all" ||
    py.reads m.text ("@" ++ py.lower l.name) || py.reads m.text "@all")

theorem skips_messageFields : (l.skipOwn.any fun own => own ≠ "" &&
    (Json.field "sender" (messageFields m)).any (Json.isStr own)) = l.skips m := by
  simp only [field_sender, Option.any_some, Json.isStr, Listener.skips]

theorem keeps_messageJson : l.keeps py false (messageJson m) = .ok (l.recovers py m) := by
  simp only [Listener.keeps, messageJson, dictOf, ok_bind, skips_messageFields, Bool.not_false,
    Bool.and_true, Listener.recovers]
  cases l.skips m with
  | true => rfl
  | false =>
  simp only [Bool.false_eq_true, if_false, Bool.not_false, Bool.true_and]
  cases l.mentionsOnly with
  | false => rfl
  | true =>
      by_cases hn : l.name = ""
      · simp [hn, pure, Except.pure]
      · simp only [hn, ne_eq, not_false_eq_true, decide_true, Bool.and_self, if_true,
          decide_false, Bool.not_true, Bool.false_or, Interpreter.addresses, field_target,
          field_text, Option.getD_some, Interpreter.scan_or, Interpreter.reads]
        cases m.target with
        | none => simp
        | some t =>
            by_cases h₁ : t = l.name <;> by_cases h₂ : t = "all" <;> simp [Json.isStr, h₁, h₂]

/-- The test sees only what is on the wire. -/
theorem recovers_of_json {a b : Message} (h : messageJson a = messageJson b) :
    l.recovers py a = l.recovers py b := by
  have hf : messageFields a = messageFields b := Json.obj.inj h
  have ht : a.target.map Json.str = b.target.map Json.str := by
    rw [← field_target, ← field_target, hf]
  have hx : some (Json.str a.text) = some (Json.str b.text) := by
    rw [← field_text, ← field_text, hf]
  have hs : some (Json.str a.sender) = some (Json.str b.sender) := by
    rw [← field_sender, ← field_sender, hf]
  have ht' : a.target = b.target := Option.map_injective (fun _ _ => Json.str.inj) ht
  simp only [Listener.recovers, Listener.skips, ht', Json.str.inj (Option.some.inj hx),
    Json.str.inj (Option.some.inj hs)]

theorem eligible_messages (ms : List Message) :
    l.eligible py false (ms.map messageJson) = .ok ((ms.filter (l.recovers py)).map messageJson) := by
  induction ms with
  | nil => rfl
  | cons m ms ih =>
      simp only [List.map_cons, Listener.eligible, keeps_messageJson, ih, ok_bind]
      cases h : l.recovers py m <;> simp [h, pure, Except.pure]

theorem recordIds (ms : List Message) :
    (ms.map messageJson).mapM (recordId py) = .ok (ms.map fun m => (m.id : Int)) := by
  induction ms with
  | nil => rfl
  | cons m ms ih =>
      rw [List.map_cons, List.mapM_cons, recordId_messageJson, ok_bind, ih, ok_bind]
      rfl

end Reading

/-! ## The whole archive, page by page -/

section Paging

variable (room : String) (db : Db)

/-- The rows of a room past a cursor, in order. -/
def rowsAfter (c : Nat) : List MessageRow :=
  orderBy MessageRow.id (db.messages.filter fun r => r.room = room && c < r.id)

variable {room db} (hids : (db.messages.map MessageRow.id).Nodup)

include hids

theorem rowsAfter_strict (c : Nat) : (rowsAfter room db c).Pairwise fun a b => a.id < b.id :=
  orderBy_strict (hids.sublist (List.filter_sublist.map _))

/-- Past the greatest id of a page stands the rest. -/
theorem rowsAfter_page {c k n : Nat} (hck : c < k)
    (hk : k ∈ ((rowsAfter room db c).take n).map MessageRow.id)
    (hmax : ∀ r ∈ (rowsAfter room db c).take n, r.id ≤ k) :
    rowsAfter room db k = (rowsAfter room db c).drop n := by
  have hcut : rowsAfter room db k = (rowsAfter room db c).filter fun r => k < r.id := by
    rw [rowsAfter, rowsAfter, filter_orderBy (hids.sublist (List.filter_sublist.map _)),
      List.filter_filter]
    congr 1
    refine List.filter_congr fun r _ => ?_
    by_cases hr : k < r.id
    · simp [hr, hck.trans hr]
    · simp [hr]
  have hsplit := List.take_append_drop n (rowsAfter room db c)
  have hstrict := @rowsAfter_strict room _ hids c
  rw [← hsplit] at hstrict
  rw [hcut]
  conv_lhs => rw [← hsplit]
  exact filter_gt_append hstrict hk hmax

end Paging

/-- The cursor of a page that is not empty. -/
theorem exists_pageCursor {ms : List Message} (hms : ms ≠ []) :
    ∃ k : Nat, (ms.map fun m => (m.id : Int)).max? = some (k : Int) ∧ k ∈ ms.map Message.id ∧
      ∀ m ∈ ms, m.id ≤ k := by
  cases h : (ms.map fun m => (m.id : Int)).max? with
  | none =>
      rw [List.max?_eq_none_iff, List.map_eq_nil_iff] at h
      exact absurd h hms
  | some i =>
      obtain ⟨hi, hmax⟩ := List.max?_eq_some_iff.mp h
      obtain ⟨m, hm, rfl⟩ := List.mem_map.mp hi
      refine ⟨m.id, rfl, List.mem_map_of_mem hm, fun x hx => ?_⟩
      exact Int.ofNat_le.mp (hmax _ (List.mem_map_of_mem (f := fun m => (m.id : Int)) hx))

/-- One turn of the loop, on a page that is not empty and past the cursor. -/
theorem backfillPages_page (py : Interpreter) (l : Listener) {fetch : Int → Except String Json}
    {ms : List Message} (fuel : Nat) {c k : Nat} (hfetch : fetch c = .ok (.arr (ms.map messageJson)))
    (hmax : (ms.map fun m => (m.id : Int)).max? = some (k : Int)) (hck : c < k) :
    l.backfillPages py false fetch (fuel + 1) c =
      if ms.length < backfillPageSize then
        ([((k : Int), (ms.filter (l.recovers py)).map messageJson)], .finished)
      else
        (((k : Int), (ms.filter (l.recovers py)).map messageJson) ::
          (l.backfillPages py false fetch fuel k).1, (l.backfillPages py false fetch fuel k).2) := by
  cases ms with
  | nil => cases hmax
  | cons m ms =>
      have hids := recordIds py (m :: ms)
      have hel := eligible_messages py l (m :: ms)
      have hadv : ¬((k : Int) ≤ (c : Int)) := by omega
      rw [List.map_cons] at hids hel hfetch
      simp only [Listener.backfillPages, hfetch, hids, hmax, Option.getD_some, hadv, if_false, hel,
        List.length_cons, List.length_map]

/-- Every message past the cursor is met, and the reading ends. -/
theorem backfillPages_complete {cfg : Config} (py : Interpreter) (l : Listener) {room : String}
    {w : World} (hp : cfg.persistent = true) (hids : (w.db.messages.map MessageRow.id).Nodup)
    (fuel c : Nat) (hfuel : (rowsAfter room w.db c).length < fuel) :
    ∃ pages, l.backfillPages py false (fun since => .ok (getMessages cfg room since backfillPageSize w))
        fuel c = (pages, .finished) ∧
      pages.flatMap Prod.snd =
        (((rowsAfter room w.db c).map MessageRow.toMessage).filter (l.recovers py)).map messageJson := by
  induction fuel generalizing c with
  | zero => exact absurd hfuel (Nat.not_lt_zero _)
  | succ fuel ih =>
      have hget : getMessages cfg room c backfillPageSize w =
          .arr ((((rowsAfter room w.db c).take backfillPageSize).map MessageRow.toMessage).map
            messageJson) := by
        simp only [getMessages, World.messagesAfter, hp, if_true]
        rfl
      by_cases hnil : rowsAfter room w.db c = []
      · refine ⟨[], ?_, ?_⟩
        · simp only [Listener.backfillPages, hget, hnil, List.take_nil, List.map_nil]
        · simp [hnil]
      · have hne : ((rowsAfter room w.db c).take backfillPageSize).map MessageRow.toMessage ≠ [] := by
          simp [hnil, backfillPageSize]
        obtain ⟨k, hmax, hk, hle⟩ := exists_pageCursor hne
        obtain ⟨m, hm, rfl⟩ := List.mem_map.mp hk
        obtain ⟨r, hr, rfl⟩ := List.mem_map.mp hm
        have hck : c < r.toMessage.id := by
          have := mem_orderBy.mp (List.mem_of_mem_take hr)
          simp only [List.mem_filter, Bool.and_eq_true, decide_eq_true_eq] at this
          exact this.2.2
        have hrest : rowsAfter room w.db r.toMessage.id = (rowsAfter room w.db c).drop backfillPageSize :=
          rowsAfter_page hids hck (List.mem_map_of_mem hr) fun x hx =>
            hle _ (List.mem_map_of_mem hx)
        rw [backfillPages_page py l fuel (congrArg Except.ok hget) hmax hck]
        have hparts : (((rowsAfter room w.db c).map MessageRow.toMessage).filter (l.recovers py)).map
              messageJson =
            ((((rowsAfter room w.db c).take backfillPageSize).map MessageRow.toMessage).filter
              (l.recovers py)).map messageJson ++
            (((rowsAfter room w.db r.toMessage.id).map MessageRow.toMessage).filter (l.recovers py)).map
              messageJson := by
          rw [hrest, ← List.map_append, ← List.filter_append, ← List.map_append,
            List.take_append_drop]
        have hlen : 0 < (rowsAfter room w.db c).length := List.length_pos_iff.mpr hnil
        have hsize : 0 < backfillPageSize := by decide
        rw [hparts, List.length_map, List.length_take]
        by_cases hshort : min backfillPageSize (rowsAfter room w.db c).length < backfillPageSize
        · have hend : rowsAfter room w.db r.toMessage.id = [] := by
            rw [hrest, List.drop_eq_nil_iff]
            omega
          refine ⟨_, if_pos hshort, ?_⟩
          simp [hend]
        · obtain ⟨pages, hpages, hall⟩ := ih r.toMessage.id (by rw [hrest, List.length_drop]; omega)
          rw [if_neg hshort, hpages]
          refine ⟨_, rfl, ?_⟩
          rw [List.flatMap_cons, hall]

/-! ## Connected or not

The two rules side by side, and the messages on which they differ. -/

section Agreement

variable (cfg : Config) (py : Interpreter) (k : Socket) (m : Message)

/-- The message names the participant, as the server sees it. -/
def Socket.Named : Prop :=
  m.target = some k.name ∨ m.replyToSender = some k.name ∨ mentionsName cfg m.text k.name = true

/-- The message calls all, and the participant is one who can be called. -/
def Socket.Called : Prop :=
  k.acceptsAll cfg = true ∧ m.kind ≠ .announce ∧
    (m.target = some "all" ∨ mentionsAll cfg m.text = true)

/-- The message names the participant or all, as the archive and the listener see it. -/
def Socket.Recorded : Prop :=
  k.name = "" ∨ m.target = some k.name ∨ m.target = some "all" ∨
    py.reads m.text ("@" ++ py.lower k.name) = true ∨ py.reads m.text "@all" = true

/-- The kinds of messages that reach a participant on one way only, all ruled out. -/
structure Socket.Agrees : Prop where
  /-- A bare answer: the archive has lost whom it answers. -/
  answer : m.replyToSender = some k.name → k.Recorded py m
  /-- A mention that only the server reads. -/
  serverOnly : mentionsName cfg m.text k.name = true ∨ k.Called cfg m → k.Recorded py m
  /-- All are called where the server lets nobody be called: in an announcement, or away from
  a caretaker's home. -/
  uncalled : k.acceptsAll cfg = false ∨ m.kind = .announce →
    m.target = some "all" ∨ py.reads m.text "@all" = true → k.Named cfg m
  /-- A mention that only the listener reads. -/
  listenerOnly : k.acceptsAll cfg = true → m.kind ≠ .announce → py.reads m.text "@all" = true →
    k.Named cfg m ∨ k.Called cfg m
  listenerName : py.reads m.text ("@" ++ py.lower k.name) = true → k.Named cfg m ∨ k.Called cfg m
  /-- A listener without a name takes everything. -/
  unnamed : k.name = "" → k.Named cfg m ∨ k.Called cfg m

theorem msgAddresses_iff :
    msgAddresses cfg m k.name (k.acceptsAll cfg) = true ↔ k.Named cfg m ∨ k.Called cfg m := by
  simp only [msgAddresses, Bool.or_eq_true, Bool.and_eq_true, decide_eq_true_eq, Socket.Named,
    Socket.Called, ne_eq]
  tauto

theorem recovers_iff {l : Listener} (hname : l.name = k.name) (hmode : l.mentionsOnly = true)
    (hskip : l.skips m = false) : l.recovers py m = true ↔ k.Recorded py m := by
  simp only [Listener.recovers, hskip, hmode, hname, Bool.not_true, Bool.not_false, Bool.false_or,
    Bool.true_and, Bool.or_eq_true, decide_eq_true_eq, Socket.Recorded, or_assoc]

/-- The two ways agree on a message exactly when it is of none of these kinds. -/
theorem agrees_iff :
    (k.Named cfg m ∨ k.Called cfg m ↔ k.Recorded py m) ↔ k.Agrees cfg py m := by
  constructor
  · intro h
    refine ⟨fun ha => h.mp (.inl (.inr (.inl ha))), ?_, ?_, ?_, ?_, ?_⟩
    · rintro (hn | hc)
      · exact h.mp (.inl (.inr (.inr hn)))
      · exact h.mp (.inr hc)
    · intro hno hall
      have hrec : k.Recorded py m := by
        rcases hall with ht | hr
        · exact .inr (.inr (.inl ht))
        · exact .inr (.inr (.inr (.inr hr)))
      rcases h.mpr hrec with hn | hc
      · exact hn
      · rcases hno with ha | hk
        · exact absurd hc.1 (by simp [ha])
        · exact absurd hk hc.2.1
    · exact fun _ _ hr => h.mpr (.inr (.inr (.inr (.inr hr))))
    · exact fun hr => h.mpr (.inr (.inr (.inr (.inl hr))))
    · exact fun hn => h.mpr (.inl hn)
  · intro h
    constructor
    · rintro ((ht | ha | hn) | hc)
      · exact .inr (.inl ht)
      · exact h.answer ha
      · exact h.serverOnly (.inl hn)
      · exact h.serverOnly (.inr hc)
    · -- what is recorded is a name, a target, or a mention the listener reads
      have hall : m.target = some "all" ∨ py.reads m.text "@all" = true →
          k.Named cfg m ∨ k.Called cfg m := by
        intro hall
        by_cases ha : k.acceptsAll cfg = true
        · by_cases hk : m.kind = .announce
          · exact .inl (h.uncalled (.inr hk) hall)
          · rcases hall with ht | hr
            · exact .inr ⟨ha, hk, .inl ht⟩
            · exact h.listenerOnly ha hk hr
        · exact .inl (h.uncalled (.inl (by simpa using ha)) hall)
      rintro (hn | ht | ht | hr | hr)
      · exact h.unnamed hn
      · exact .inl (.inl ht)
      · exact hall (.inl ht)
      · exact h.listenerName hr
      · exact hall (.inr hr)

end Agreement

/-- For a stored message and a participant who did not write it and does not lead, in a room
that is not live: the live socket lets the message through if and only if the archive, read by
the participant's listener, yields it, exactly when the message is of none of the kinds that
`Agrees` rules out. -/
theorem live_agrees_with_backfill_iff {cfg : Config} (py : Interpreter) {l : Listener} {k : Socket}
    {w : World} {m : Message} {operation : Option Operation} {last fuel : Nat}
    (hp : cfg.persistent = true) (hids : (w.db.messages.map MessageRow.id).Nodup)
    (hrow : MessageRow.ofMessage m operation ∈ w.db.messages) (hroom : m.room = k.room)
    (hname : l.name = k.name) (hmode : l.mentionsOnly = true) (hown : ∀ own ∈ l.skipOwn, own = k.name)
    (hsender : m.sender ≠ k.name) (hlive : w.isLive k.room = false)
    (hlead : w.isLead k.room k.name = false) (hlast : last < m.id)
    (hfuel : w.db.messages.length < fuel) :
    ∃ pages, l.backfillPages py false
        (fun since => .ok (getMessages cfg k.room since backfillPageSize w)) fuel last =
          (pages, .finished) ∧
      ((k.hears cfg w m = true ↔
        ∃ page ∈ pages, messageJson { m with replyToSender := none } ∈ page.2) ↔
      k.Agrees cfg py m) := by
  have hlen : (rowsAfter k.room w.db last).length < fuel := by
    have := (@orderBy_perm _ _ _ _ MessageRow.id
      (w.db.messages.filter fun r => r.room = k.room && last < r.id)).length_eq
    have hle := List.length_filter_le (fun r : MessageRow => r.room = k.room && last < r.id)
      w.db.messages
    unfold rowsAfter
    omega
  obtain ⟨pages, hpages, hall⟩ := backfillPages_complete py l hp hids fuel last hlen
  have hskip : l.skips { m with replyToSender := none } = false := by
    unfold Listener.skips
    cases ho : l.skipOwn with
    | none => rfl
    | some own =>
        obtain rfl := hown own ho
        simp [hsender]
  have hmem : (∃ page ∈ pages, messageJson { m with replyToSender := none } ∈ page.2) ↔
      k.Recorded py m := by
    rw [← List.mem_flatMap, hall, ← recovers_iff py k m hname hmode hskip]
    constructor
    · intro h
      obtain ⟨a, ha, hj⟩ := List.mem_map.mp h
      have hrec := (List.mem_filter.mp ha).2
      rwa [recovers_of_json py l hj] at hrec
    · intro h
      refine List.mem_map_of_mem (List.mem_filter.mpr ⟨List.mem_map.mpr ?_, h⟩)
      refine ⟨_, mem_orderBy.mpr (List.mem_filter.mpr ⟨hrow, ?_⟩),
        MessageRow.toMessage_ofMessage m operation⟩
      simpa [MessageRow.ofMessage, hroom] using hlast
  refine ⟨pages, hpages, ?_⟩
  rw [hmem, Socket.hears_of_stranger hsender hlive hlead, msgAddresses_iff]
  exact agrees_iff cfg py k m

/-! ## A room where a message is answered -/

/-- The listener's runtime on plain ASCII text. -/
def asciiInterpreter : Interpreter where
  loads := fun _ => none
  render := fun _ => ""
  toInt := fun _ => .error "TypeError"
  sha256Hex := id
  casefold := fun s => String.ofList (s.toList.map Char.toLower)
  lower := fun s => String.ofList (s.toList.map Char.toLower)
  isalnum := Char.isAlphanum

def sayIn (room sender text : String) (replyTo : Option Nat) : PostRequest :=
  ⟨room, ⟨.say, sender, .agent, none, text, replyTo, none, []⟩, false, sender⟩

/-- `bob` asks, `ann` answers his message and mentions nobody, `eve` mentions him. -/
def answeredWorld : World :=
  let say (now : Nat) (q : PostRequest) (w : World) :=
    (post sampleConfig (sampleEnv now fun _ => false) q w).2
  say 3000 (sayIn "den" "eve" "@Bob, look" none)
    (say 2000 (sayIn "den" "ann" "yes" (some 1))
      (say 1000 (sayIn "den" "bob" "ready?" none)
        (build sampleConfig (sampleEnv 0 fun _ => false) 0 {})))

def bobSocket : Socket := ⟨"den", "bob", none⟩

def bobListener : Listener := ⟨"bob", true, some "bob"⟩

/-- What `bob`'s listener recovers from the start. -/
def bobRecovers : List (Int × List Json) × Ending :=
  bobListener.backfillPages asciiInterpreter false
    (fun since => .ok (getMessages sampleConfig "den" since backfillPageSize answeredWorld)) 10 0

/-- The answer, as the room heard it. -/
def replyMessage : Message := ⟨2, "den", "ann", .agent, none, "yes", .say, some 1, some "bob", 2000, []⟩

def mention : Message := ⟨3, "den", "eve", .agent, none, "@Bob, look", .say, none, none, 3000, []⟩

theorem bobRecovers_eq : bobRecovers = ([(3, [messageJson mention])], .finished) := rfl

/-- The answer reaches `bob` while he is connected, and not when he comes back. -/
theorem answer_is_lost_offline :
    replyMessage ∈ answeredWorld.recentMessages "den" ∧
      MessageRow.ofMessage replyMessage none ∈ answeredWorld.db.messages ∧
      replyMessage.sender ≠ "bob" ∧ answeredWorld.isLive "den" = false ∧
      answeredWorld.isLead "den" "bob" = false ∧
      bobSocket.hears sampleConfig answeredWorld replyMessage = true ∧ bobRecovers.2 = .finished ∧
      ¬∃ page ∈ bobRecovers.1, messageJson { replyMessage with replyToSender := none } ∈ page.2 := by
  refine ⟨by decide +kernel, by decide +kernel, by decide, by decide +kernel, by decide +kernel,
    by decide +kernel, by rw [bobRecovers_eq], ?_⟩
  rintro ⟨page, hpage, hj⟩
  rw [bobRecovers_eq, List.mem_singleton] at hpage
  rw [hpage, List.mem_singleton] at hj
  have hid := congrArg (Json.field "id") (Json.obj.inj hj)
  rw [field_id, field_id] at hid
  cases hid

/-- The mention reaches him both ways. -/
theorem live_agrees_with_backfill_sample :
    bobSocket.hears sampleConfig answeredWorld mention = true ∧
      bobSocket.Agrees sampleConfig asciiInterpreter mention ∧
      ∃ pages, bobListener.backfillPages asciiInterpreter false
          (fun since => .ok (getMessages sampleConfig "den" since backfillPageSize answeredWorld)) 10 0 =
            (pages, .finished) ∧
        ((bobSocket.hears sampleConfig answeredWorld mention = true ↔
          ∃ page ∈ pages, messageJson { mention with replyToSender := none } ∈ page.2) ↔
        bobSocket.Agrees sampleConfig asciiInterpreter mention) := by
  have hnamed : bobSocket.Named sampleConfig mention := .inr (.inr (by decide +kernel))
  have hread : asciiInterpreter.reads mention.text ("@" ++ asciiInterpreter.lower "bob") = true := by
    decide +kernel
  have hrec : bobSocket.Recorded asciiInterpreter mention := .inr (.inr (.inr (.inl hread)))
  exact ⟨by decide +kernel,
    ⟨fun _ => hrec, fun _ => hrec, fun _ _ => hnamed, fun _ _ _ => .inl hnamed, fun _ => .inl hnamed,
      fun _ => .inl hnamed⟩,
    @live_agrees_with_backfill_iff sampleConfig asciiInterpreter bobListener bobSocket answeredWorld
      mention none 0 10 rfl (by decide +kernel) (by decide +kernel) rfl rfl rfl
      (by intro own h; cases h; rfl) (by decide) (by decide +kernel) (by decide +kernel) (by decide)
      (by decide +kernel)⟩

end Loca
