/-
# `Loca.Runner.Worker` — the runner's budget and the worker's

`WikiRunner.run_once` and `ProcessWorker.__call__` in `wiki_runtime.py`, `main` in `wiki_worker.py`.  The runner
measures what it is about to send: the JSON text with every character as it is.  `ProcessWorker` writes another text,
with every character beyond printable ASCII escaped, and it is that text which the worker measures.  Both allow
256000 bytes.

What is written is read back as what was sent, whatever it holds (`workerInput_iff`).  But it is longer than what was
measured, by the escapes, and a payload that the runner lets through may be one that the worker refuses: the limits
agree only when the escapes fit as well.
-/
import Loca.Base.Joined
import Loca.Runner.Coordinator

namespace Loca.Runner

open Check

/-! ## The runner -/

inductive RunnerError
  | envelope
  | idle
  | coordinator (e : CoordinatorError)
  | requestsOversized
  deriving DecidableEq, Repr

def RunnerError.message : RunnerError → String
  | envelope => "Wiki transport returned an invalid envelope"
  | idle => ""
  | coordinator e => e.message
  | requestsOversized => "Wiki context requests exceeded worker input budget"

/-- `ShellTransport.call`, of what the shipped client printed. -/
def call (fl : Json.Floats) (stdout : List Char) : Except RunnerError (Option Dict) :=
  match Json.loads fl stdout with
  | some .null => .ok none
  | some (.obj d) => .ok (some d)
  | _ => .error .envelope

def ofCoordinator {α : Type} : Except CoordinatorError α → Except RunnerError α
  | .ok a => .ok a
  | .error e => .error (.coordinator e)

/-- What the runner sends a worker, from what the transport printed for `claim`, `read` and `requests`. -/
def workerPayload (fl : Json.Floats) (room : String) (claim read requests : List Char) : Except RunnerError Json := do
  let batch ← found (← call fl claim) .idle
  let snapshot ← found (← call fl read) .envelope
  let answer ← found (← call fl requests) .envelope
  let requests := (Json.field "requests" answer).getD (.arr [])
  let payload ← ofCoordinator (prepare room (Json.setField "context_requests" requests batch) snapshot)
  let payload : Json := .obj (Json.setField "context_requests" requests payload)
  require (Json.bytes (Json.dumps .unicode payload) ≤ maxInputBytes) .requestsOversized
  pure payload

/-- The text that `ProcessWorker` writes. -/
def workerText (payload : Json) : List Char := Json.dumps .default payload

/-! ## The worker -/

inductive WorkerError
  | oversized
  | undecodable
  deriving DecidableEq, Repr

def WorkerError.message : WorkerError → String
  | oversized => "Wiki input budget exceeded"
  | undecodable => ""

/-- What a text stream gives for the line ends it reads. -/
def universalNewlines : List Char → List Char
  | [] => []
  | '\r' :: '\n' :: rest => '\n' :: universalNewlines rest
  | c :: rest => (if c = '\r' then '\n' else c) :: universalNewlines rest

/-- The worker's input: `sys.stdin.read(256001)`, its length, and `json.loads`. -/
def workerInput (fl : Json.Floats) (stdin : List Char) : Except WorkerError Json := do
  let raw := (universalNewlines stdin).take (maxInputBytes + 1)
  require (Json.bytes raw ≤ maxInputBytes) .oversized
  found (Json.loads fl raw) .undecodable

/-! ## What was sent is what is read -/

section

variable {fl : Json.Floats} {room : String} {claim read requests : List Char} {payload : Json}

theorem universalNewlines_of_printable {cs : List Char} (h : Json.Printable cs) : universalNewlines cs = cs := by
  induction cs with
  | nil => rfl
  | cons c cs ih =>
      have hc : c ≠ '\r' := fun he => absurd (h c List.mem_cons_self).1 (by rw [he]; decide)
      have hrest := ih fun d hd => h d (List.mem_cons_of_mem c hd)
      rw [universalNewlines]
      · rw [if_neg hc, hrest]
      · exact fun _ he => absurd he hc

/-- A value that can be written passes the pipe unchanged; the worker takes it when its text keeps to the limit. -/
theorem workerInput_workerText (h : Json.Sound fl payload) :
    workerInput fl (workerText payload) =
      if Json.bytes (workerText payload) ≤ maxInputBytes then .ok payload else .error .oversized := by
  have hplain : universalNewlines (workerText payload) = workerText payload :=
    universalNewlines_of_printable (Json.dumps_printable rfl h)
  unfold workerInput
  rw [hplain]
  have hlimit := Json.take_of_bytes maxInputBytes (workerText payload)
  by_cases hle : Json.bytes (workerText payload) ≤ maxInputBytes
  · have hlen := Json.length_le_bytes (workerText payload)
    have hread : Json.loads fl (workerText payload) = some payload := Json.loads_dumps h _
    rw [if_pos hle, List.take_of_length_le (by omega)]
    simp only [require, if_pos hle, ok_bind, hread, found_some]
  · rw [if_neg hle]
    simp only [require, if_neg fun he => hle (hlimit.mp he), error_bind]

theorem call_sound {stdout : List Char} {d : Dict} (h : call fl stdout = .ok (some d)) : Json.Sound fl (.obj d) := by
  unfold call at h
  split at h
  · cases h
  · next d' hread =>
    rw [← Option.some.inj (Except.ok.inj h)]
    exact Json.loads_sound hread
  · cases h

theorem ofCoordinator_ok {α : Type} {x : Except CoordinatorError α} {a : α} : ofCoordinator x = .ok a ↔ x = .ok a := by
  cases x <;> simp [ofCoordinator]

/-- What the runner sends can be written, and keeps to its budget. -/
theorem workerPayload_ok (h : workerPayload fl room claim read requests = .ok payload) :
    Json.Sound fl payload ∧ Json.bytes (Json.dumps .unicode payload) ≤ maxInputBytes := by
  simp only [workerPayload, bind_ok, require_ok, found_ok, pure_ok, exists_const, ofCoordinator_ok] at h
  obtain ⟨b, hb, batch, rfl, s, hs, snapshot, rfl, a, ha, answer, rfl, payload', hprepare, hsize, rfl⟩ := h
  have hrequests : Json.Sound fl ((Json.field "requests" answer).getD (.arr [])) := by
    cases hfield : Json.field "requests" answer with
    | none => exact .arr fun _ hv => absurd hv List.not_mem_nil
    | some v => exact (call_sound ha).field hfield
  have hbatch : Json.Sound fl (.obj (Json.setField "context_requests" _ batch)) := (call_sound hb).setField hrequests
  exact ⟨(prepare_sound hbatch (call_sound hs) hprepare).setField hrequests, hsize⟩

theorem workerPayload_of {batch snapshot answer p : Dict} (hb : call fl claim = .ok (some batch))
    (hs : call fl read = .ok (some snapshot)) (ha : call fl requests = .ok (some answer))
    (hp : prepare room (Json.setField "context_requests" ((Json.field "requests" answer).getD (.arr [])) batch) snapshot =
      .ok p)
    (hsize : Json.bytes (Json.dumps .unicode (.obj (Json.setField "context_requests"
      ((Json.field "requests" answer).getD (.arr [])) p))) ≤ maxInputBytes) :
    workerPayload fl room claim read requests =
      .ok (.obj (Json.setField "context_requests" ((Json.field "requests" answer).getD (.arr [])) p)) := by
  simp only [workerPayload, hb, hs, ha, found_some, ok_bind, hp, ofCoordinator, require, if_pos hsize]
  rfl

/-- The worker takes what the runner sends, and as what was sent, exactly when the escapes fit its budget as well. -/
theorem workerInput_iff (h : workerPayload fl room claim read requests = .ok payload) :
    workerInput fl (workerText payload) = .ok payload ↔
      Json.bytes (Json.dumps .unicode payload) + Json.surplus payload ≤ 256000 := by
  rw [workerInput_workerText (workerPayload_ok h).1]
  have hbytes : Json.bytes (workerText payload) = Json.bytes (Json.dumps .unicode payload) + Json.surplus payload :=
    Json.bytes_dumps true payload
  rw [hbytes]
  by_cases hle : Json.bytes (Json.dumps .unicode payload) + Json.surplus payload ≤ maxInputBytes
  · exact iff_of_true (if_pos hle) hle
  · rw [if_neg hle]
    exact iff_of_false (fun he => nomatch he) hle

end

/-! A batch of one message, and a wiki of three pages with one body.  No float occurs in them. -/

def noFloats : Json.Floats where
  read _ := .float "0.0" true (some 0)
  repr _ := ⟨_, _, _, rfl, rfl, .inr ⟨⟨false, ['0'], ['.', '0'], []⟩, by decide, by decide, by decide⟩⟩

def sampleMessage : Dict :=
  [("id", .int 1), ("room", .str "den"), ("sender", .str "ada"), ("sender_type", .str "user"), ("text", .str "hi"),
    ("ts", .int 5)]

def sampleBatch : Dict :=
  [("lease", .obj [("batch_id", .int 1), ("epoch", .int 1)]), ("room", .str "den"), ("after_id", .int 0),
    ("through_id", .int 1), ("reason", .str "message_threshold"), ("lease_expires_at", .int 300000),
    ("attempts", .int 1), ("messages", .arr [.obj sampleMessage])]

def samplePage (slug body : String) : Json :=
  .obj [("slug", .str slug), ("title", .str "Notlar"), ("body", .str body), ("sources", .arr []), ("revision", .int 3)]

def sampleWiki (body : String) : Dict :=
  [("room", .str "den"), ("editor_principal", .str "pr_1"), ("editor_name", .str "wiki"), ("enabled", .bool true),
    ("interval_messages", .int 1), ("revision", .int 3), ("reviewed_through", .int 0), ("reviewed_at", .null),
    ("edited_at", .int 4), ("pages", .arr [samplePage "a" body, samplePage "b" body, samplePage "c" body])]

def sampleRequests : Dict := [("requests", .arr [])]

def samplePayload (instructions body : String) : Dict :=
  [("instructions", .str instructions), ("room", .str "den"), ("wiki", .obj (sampleWiki body)),
    ("messages", .arr [.obj sampleMessage]), ("reviewed_through", .int 1)]

def withRequests (d : Dict) : Json := .obj (d ++ [("context_requests", .arr [])])

def printed (d : Dict) : List Char := Json.dumps .default (.obj d)

theorem call_printed {fl : Json.Floats} {d : Dict} (h : Json.exact (.obj d) = true) :
    call fl (printed d) = .ok (some d) := by
  unfold call printed
  rw [Json.loads_dumps (Json.sound_of_exact _ h)]

theorem sample_prepare {body : String}
    (h : Json.bytes (Json.dumps .unicode (.obj (samplePayload workerInstructions body))) ≤ maxInputBytes) :
    prepare "den" (Json.setField "context_requests" (.arr []) sampleBatch) (sampleWiki body) =
      .ok (samplePayload workerInstructions body) := by
  have hsources : [(1 : Int)] ≠ [] ∧ [(1 : Int)].length ≤ 100 ∧ (∀ id ∈ [(1 : Int)], 0 < id) ∧
      [(1 : Int)].Pairwise (· < ·) ∧ (∀ id ∈ [(1 : Int)].head?, (0 : Int) < id) ∧ [(1 : Int)].getLast? = some 1 ∧
      ∀ m ∈ [sampleMessage], text "room" m = some "den" := by decide
  have hbatch : text "room" (Json.setField "context_requests" (.arr []) sampleBatch) = some "den" ∧
      number "after_id" (Json.setField "context_requests" (.arr []) sampleBatch) = some 0 ∧
      records "messages" (Json.setField "context_requests" (.arr []) sampleBatch) = some [sampleMessage] ∧
      number "through_id" (Json.setField "context_requests" (.arr []) sampleBatch) = some 1 ∧
      [sampleMessage].mapM (number "id") = some [1] := by
    refine ⟨?_, ?_, ?_, ?_, ?_⟩ <;> rfl
  have hwiki : text "room" (sampleWiki body) = some "den" ∧ number "reviewed_through" (sampleWiki body) = some 0 :=
    ⟨rfl, rfl⟩
  obtain ⟨hroom, hafter, hmessages, hthrough, hids⟩ := hbatch
  unfold samplePayload at h ⊢
  unfold prepare
  simp only [require, hroom, hwiki.1, hwiki.2, hafter, hmessages, hthrough, hids, found_some, ok_bind, if_pos hsources,
    if_true, List.map_cons, List.map_nil, if_pos h]
  rfl

theorem sample_payload {body : String}
    (h : Json.bytes (Json.dumps .unicode (.obj (samplePayload workerInstructions body))) ≤ maxInputBytes)
    (h' : Json.bytes (Json.dumps .unicode (withRequests (samplePayload workerInstructions body))) ≤ maxInputBytes) :
    workerPayload noFloats "den" (printed sampleBatch) (printed (sampleWiki body)) (printed sampleRequests) =
      .ok (withRequests (samplePayload workerInstructions body)) := by
  have hanswer : (Json.field "requests" sampleRequests).getD (.arr []) = .arr [] := rfl
  have hset : ∀ instructions, Json.obj (Json.setField "context_requests" (.arr []) (samplePayload instructions body)) =
      withRequests (samplePayload instructions body) := fun _ => rfl
  have hclaim : call noFloats (printed sampleBatch) = .ok (some sampleBatch) := call_printed (by decide)
  have hread : call noFloats (printed (sampleWiki body)) = .ok (some (sampleWiki body)) := call_printed (by rfl)
  have hrequests : call noFloats (printed sampleRequests) = .ok (some sampleRequests) := call_printed (by decide)
  have hsent := workerPayload_of hclaim hread hrequests (hanswer ▸ sample_prepare h)
  rw [hanswer, hset] at hsent
  exact hsent h'

/-- What the instructions and the three bodies add to the payload without them. -/
theorem samplePayload_bytes (f : Json.Format) (instructions body : String) :
    Json.bytes (Json.dumps f (.obj (samplePayload instructions body))) + 8 =
      Json.bytes (Json.dumps f (.obj (samplePayload "" ""))) +
        Json.bytes (Json.quote f instructions) + 3 * Json.bytes (Json.quote f body) ∧
    Json.bytes (Json.dumps f (withRequests (samplePayload instructions body))) + 8 =
      Json.bytes (Json.dumps f (withRequests (samplePayload "" ""))) +
        Json.bytes (Json.quote f instructions) + 3 * Json.bytes (Json.quote f body) := by
  have hempty : Json.bytes (Json.quote f "") = 2 := rfl
  -- the strings are atoms from here on
  obtain ⟨q, hq⟩ : ∃ q : String → Nat, ∀ s, Json.bytes (Json.quote f s) = q s := ⟨_, fun _ => rfl⟩
  rw [hq] at hempty
  constructor <;>
    simp only [samplePayload, withRequests, sampleWiki, samplePage, Json.dumps, Json.dumpsItems, Json.dumpsFields,
      Json.joined, List.cons_append, List.nil_append, List.flatMap_cons, List.flatMap_nil, List.append_nil,
      Json.bytes_append, Json.bytes_cons, Json.bytes_nil, hq, hempty] <;>
    omega

theorem instructions_bytes : Json.bytes (Json.quote .unicode workerInstructions) ≤ 30000 := by
  have hlines : (instructionLines.map Text.byteLen).sum ≤ 2000 ∧ instructionLines.length ≤ 40 := by decide +kernel
  have hlen : workerInstructions.utf8ByteSize ≤ 2040 := by
    unfold workerInstructions
    have hjoined := Joined.byteLen_intercalate "\n" instructionLines
    have hsep : Text.byteLen "\n" = 1 := by decide
    rw [hsep] at hjoined
    unfold Joined.joinedBytes at hjoined
    show Text.byteLen _ ≤ 2040
    omega
  have := Json.bytes_quote_le .unicode workerInstructions
  omega

theorem samplePayload_small :
    Json.bytes (Json.dumps .unicode (.obj (samplePayload "" ""))) ≤ 2000 ∧
    Json.bytes (Json.dumps .unicode (withRequests (samplePayload "" ""))) ≤ 2000 := by
  decide +kernel

/-- The sample keeps to the runner's budget while a body does not take more than 70000 bytes. -/
theorem sample_fits {body : String} (h : Json.bytes (Json.quote .unicode body) ≤ 70000) :
    workerPayload noFloats "den" (printed sampleBatch) (printed (sampleWiki body)) (printed sampleRequests) =
      .ok (withRequests (samplePayload workerInstructions body)) := by
  have hbytes := samplePayload_bytes .unicode workerInstructions body
  have hinstructions := instructions_bytes
  have hsmall := samplePayload_small
  refine sample_payload ?_ ?_ <;> unfold maxInputBytes <;> omega

theorem workerInput_iff_sample :
    workerPayload noFloats "den" (printed sampleBatch) (printed (sampleWiki "ş")) (printed sampleRequests) =
      .ok (withRequests (samplePayload workerInstructions "ş")) ∧
    (workerInput noFloats (workerText (withRequests (samplePayload workerInstructions "ş"))) =
        .ok (withRequests (samplePayload workerInstructions "ş")) ↔
      Json.bytes (Json.dumps .unicode (withRequests (samplePayload workerInstructions "ş"))) +
        Json.surplus (withRequests (samplePayload workerInstructions "ş")) ≤ 256000) :=
  ⟨sample_fits (by decide), workerInput_iff (sample_fits (by decide))⟩

theorem samplePayload_surplus (instructions body : String) :
    3 * Json.stringSurplus body ≤ Json.surplus (withRequests (samplePayload instructions body)) := by
  obtain ⟨q, hq⟩ : ∃ q : String → Nat, ∀ s, Json.stringSurplus s = q s := ⟨_, fun _ => rfl⟩
  simp only [withRequests, samplePayload, sampleWiki, samplePage, Json.surplus, Json.itemsSurplus, Json.fieldsSurplus,
    List.cons_append, List.nil_append, hq]
  omega

/-- Three pages of 32 KiB in letters of two bytes: within the runner's budget, beyond the worker's. -/
theorem long_wiki_is_refused :
    ¬ ∀ (fl : Json.Floats) (room : String) (claim read requests : List Char) (payload : Json),
        workerPayload fl room claim read requests = .ok payload →
        workerInput fl (workerText payload) = .ok payload := by
  intro hall
  have hchar : Json.bytes (Json.writeChar .unicode 'ş') = 2 ∧ Json.charSurplus 'ş' = 4 := by decide
  have hbody := Json.bytes_quote_replicate .unicode 16384 'ş'
  have hsurplus := Json.stringSurplus_replicate 16384 'ş'
  rw [hchar.1] at hbody
  rw [hchar.2] at hsurplus
  generalize String.ofList (List.replicate 16384 'ş') = body at hbody hsurplus
  have hfits := @sample_fits body (by omega)
  have htaken := hall _ _ _ _ _ _ hfits
  have hsound := (workerPayload_ok hfits).1
  have hbytes := Json.bytes_dumps true (withRequests (samplePayload workerInstructions body))
  have hsize := (samplePayload_bytes .unicode workerInstructions body).2
  have hmore := samplePayload_surplus workerInstructions body
  generalize withRequests (samplePayload workerInstructions body) = payload at htaken hsound hbytes hsize hmore
  have hbig : ¬ Json.bytes (workerText payload) ≤ maxInputBytes := by
    unfold workerText maxInputBytes Json.Format.default
    unfold Json.Format.unicode at hsize hbody
    omega
  rw [workerInput_workerText hsound, if_neg hbig] at htaken
  cases htaken

end Loca.Runner
