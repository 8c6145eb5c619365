import HexVault.Lib.Splitting

/-!
The RPC connection every backend call goes through: each call is bounded in time, and one that
times out or meets a 5xx or a 429 is asked once more of a second endpoint. No error that leaves
here names an endpoint, whose URL carries the provider's key.
-/

namespace HexVault

namespace Fallback

open Splitting

abbrev Text := List Char

def text (n : Nat) : Text := Nat.toDigits 10 n

/-- What a call threw: an `Error`, with what caused it, or any other value as `String` shows it. -/
inductive Thrown where
  | error (message : Text) (cause : Option Thrown)
  | value (shown : Text)

/-- How a call of a connection settles, if it does within the time it is given. -/
inductive Settled (α : Type) where
  | resolved (value : α)
  | rejected (error : Thrown)
  | hung

inductive Endpoint where
  | primary
  | fallback
  deriving DecidableEq, Repr

structure RpcStatus where
  endpoint : Endpoint
  fallbackAt : Option Nat
  deriving DecidableEq, Repr

def RpcStatus.fresh : RpcStatus := ⟨.primary, none⟩

/-- `/timed out after \d+ms$/`, read from the end. -/
def timedOut (message : Text) : Bool :=
  match message.reverse with
  | 's' :: 'm' :: rest =>
      !(rest.takeWhile Char.isDigit).isEmpty &&
        "timed out after ".toList.reverse.isPrefixOf (rest.dropWhile Char.isDigit)
  | _ => false

/-- A word boundary, after a word character. -/
def boundary : Text → Bool
  | [] => true
  | c :: _ => !(c.isAlphanum || c = '_')

/-- `/^(429|5\d\d)\b/` -/
def refusedStatus : Text → Bool
  | '4' :: '2' :: '9' :: rest => boundary rest
  | '5' :: b :: c :: rest => b.isDigit && c.isDigit && boundary rest
  | _ => false

def isFailoverWorthy (error : Thrown) : Bool :=
  let message := match error with
    | .error message _ => message
    | .value shown => shown
  timedOut message || refusedStatus message

def timeoutMessage (label : Text) (ms : Nat) : Text :=
  label ++ " timed out after ".toList ++ text ms ++ ['m', 's']

def withTimeout {α : Type} (call : Settled α) (ms : Nat) (label : Text) : Except Thrown α :=
  match call with
  | .resolved value => .ok value
  | .rejected error => .error error
  | .hung => .error (.error (timeoutMessage label ms) none)

def placeholder : Text := "<rpc-url>".toList

def redact (urls : List Text) : Thrown → Thrown
  | .value shown => .value shown
  | .error message cause =>
      let scrubbed := urls.foldl (fun message url => replaceAll url placeholder message) message
      if scrubbed = message then .error message cause
      else .error scrubbed (some (.error message cause))

/-- The two connections and the time a call is given. -/
structure Endpoints where
  primary : Text
  fallback : Option Text
  timeoutMs : Nat

def Endpoints.urls (ends : Endpoints) : List Text :=
  (ends.primary :: ends.fallback.toList).filter fun url => !url.isEmpty

/-- One call: what either endpoint would answer, and the time at its end. -/
structure Call (α : Type) where
  method : Text
  primary : Settled α
  fallback : Settled α
  now : Nat

structure Made (α : Type) where
  result : Except Thrown α
  /-- The endpoints asked, in order. -/
  asked : List Endpoint
  state : RpcStatus

def callWithFallback {α : Type} (ends : Endpoints) (state : RpcStatus) (call : Call α) : Made α :=
  match withTimeout call.primary ends.timeoutMs ("RPC ".toList ++ call.method) with
  | .ok value => ⟨.ok value, [.primary], { state with endpoint := .primary }⟩
  | .error primaryError =>
      if ends.fallback.isNone || !isFailoverWorthy primaryError then
        ⟨.error (redact ends.urls primaryError), [.primary], state⟩
      else
        match withTimeout call.fallback ends.timeoutMs
            ("RPC ".toList ++ call.method ++ " (fallback)".toList) with
        | .ok value => ⟨.ok value, [.primary, .fallback], ⟨.fallback, some call.now⟩⟩
        | .error fallbackError =>
            ⟨.error (redact ends.urls (.error
              ("RPC ".toList ++ call.method ++ " failed on both endpoints".toList)
              (some fallbackError))), [.primary, .fallback], state⟩

/-! Redaction. -/

/-- The characters of a URL: a colon is among them, and neither angle bracket. -/
structure UrlText (url : Text) : Prop where
  colon : ':' ∈ url
  noOpening : '<' ∉ url
  noClosing : '>' ∉ url

section Redaction
variable {α : Type} {url message : Text} {urls : List Text} {cause : Option Thrown}
  {error : Thrown} {ends : Endpoints} {state : RpcStatus} {call : Call α}

theorem UrlText.bars (h : UrlText url) : Bars url placeholder := by
  refine ⟨'<', "rpc-url".toList, '>', by decide, h.noOpening, h.noClosing, fun occurs => ?_⟩
  have inside := occurs.subset h.colon
  exact absurd inside (by decide)

theorem UrlText.ne_nil (h : UrlText url) : url ≠ [] := List.ne_nil_of_mem h.colon

theorem redact_clear (all : ∀ url ∈ urls, UrlText url)
    (h : redact urls error = .error message cause) (mem : url ∈ urls) : ¬ url <:+: message := by
  cases error with
  | value shown => cases h
  | error before cause' =>
      have gone : ¬ url <:+: urls.foldl (fun text url => replaceAll url placeholder text) before :=
        not_infix_foldl_replaceAll (fun url mem => (all url mem).ne_nil)
          (fun url mem => (all url mem).bars) mem
      simp only [redact] at h
      split at h
      · next same =>
          obtain ⟨rfl, -⟩ := Thrown.error.inj h
          rwa [same] at gone
      · obtain ⟨rfl, -⟩ := Thrown.error.inj h
        exact gone

/-- Whatever a call throws out of here is redacted. -/
theorem callWithFallback_error {thrown : Thrown}
    (h : (callWithFallback ends state call).result = .error thrown) :
    ∃ error, thrown = redact ends.urls error := by
  rw [callWithFallback] at h
  split at h
  · cases h
  · split at h
    · exact ⟨_, (Except.error.inj h).symm⟩
    · split at h
      · cases h
      · exact ⟨_, (Except.error.inj h).symm⟩

/-- An error of a call, whichever endpoints failed and whatever they said, names neither of
their URLs. -/
theorem error_names_no_url (primary : UrlText ends.primary)
    (fallback : ∀ url ∈ ends.fallback, UrlText url)
    (h : (callWithFallback ends state call).result = .error (.error message cause)) :
    ¬ ends.primary <:+: message ∧ ∀ url ∈ ends.fallback, ¬ url <:+: message := by
  obtain ⟨error, redacted⟩ := callWithFallback_error h
  have all : ∀ url ∈ ends.urls, UrlText url := by
    intro url mem
    rcases List.mem_cons.mp (List.mem_filter.mp mem).1 with rfl | mem
    · exact primary
    · exact fallback url (Option.mem_toList.mp mem)
  have kept (url : Text) (mem : url ∈ ends.primary :: ends.fallback.toList) (h : UrlText url) :
      url ∈ ends.urls := by
    refine List.mem_filter.mpr ⟨mem, ?_⟩
    simpa using h.ne_nil
  have clear (url : Text) (mem : url ∈ ends.urls) := redact_clear all redacted.symm mem
  exact ⟨clear _ (kept _ (List.mem_cons_self ..) primary), fun url mem =>
    clear _ (kept _ (List.mem_cons_of_mem _ (Option.mem_toList.mpr mem)) (fallback url mem))⟩

end Redaction

/-- The primary is down, says so with its URL, and there is no second one. -/
theorem error_names_no_url_down : ∃ message cause,
    (callWithFallback (α := Nat) ⟨"http://a?k=1".toList, none, 20⟩ .fresh
        ⟨"getSlot".toList, .rejected (.error "503 http://a?k=1".toList none), .hung, 0⟩).result =
        .error (.error message cause) ∧
      ¬ "http://a?k=1".toList <:+: message := by
  let ends : Endpoints := ⟨"http://a?k=1".toList, none, 20⟩
  let down : Thrown := .error "503 http://a?k=1".toList none
  let call : Call Nat := ⟨"getSlot".toList, .rejected down, .hung, 0⟩
  have url : UrlText ends.primary := ⟨by decide, by decide, by decide⟩
  have failed : (callWithFallback ends .fresh call).result =
      .error (.error "503 <rpc-url>".toList (some down)) := rfl
  exact ⟨_, _, failed, (error_names_no_url url (fun url mem => by cases mem) failed).1⟩

/-! Failing over. -/

section Failover
variable {α : Type} {ends : Endpoints} {state : RpcStatus} {call : Call α}

/-- `rpcStatus` once these calls have ended, in this order. -/
def statusAfter (ends : Endpoints) (calls : List (Call α)) : RpcStatus :=
  calls.foldl (fun state call => (callWithFallback ends state call).state) .fresh

/-- The primary did not serve the call, in a way that is worth a second one. -/
def Call.Failed (call : Call α) : Prop :=
  call.primary = .hung ∨ ∃ error, call.primary = .rejected error ∧ isFailoverWorthy error = true

/-- The endpoint that served a call, with the time. -/
def Call.served (ends : Endpoints) (call : Call α) : Option (Endpoint × Nat) :=
  match (callWithFallback ends .fresh call).result with
  | .ok _ => (callWithFallback ends .fresh call).asked.getLast?.map fun last => (last, call.now)
  | .error _ => none

/-- The status such calls leave: the endpoint of the last, and the time of the last failover. -/
def statusOf (served : List (Endpoint × Nat)) : RpcStatus where
  endpoint := (served.getLast?.map Prod.fst).getD .primary
  fallbackAt := (served.filter fun entry => entry.1 = .fallback).getLast?.map Prod.snd

theorem timedOut_timeoutMessage (label : Text) (ms : Nat) :
    timedOut (timeoutMessage label ms) = true := by
  have digits : ∀ c ∈ (text ms).reverse, c.isDigit = true := fun c mem =>
    Nat.isDigit_of_mem_toDigits (by decide) (by decide) (List.mem_reverse.mp mem)
  have some_ : (text ms).reverse ≠ [] := by
    rw [ne_eq, List.reverse_eq_nil_iff]
    exact Nat.toDigits_ne_nil
  have reversed : (timeoutMessage label ms).reverse = 's' :: 'm' :: ((text ms).reverse ++
      (" timed out after ".toList.reverse ++ label.reverse)) := by
    rw [timeoutMessage, List.reverse_append, List.reverse_append, List.reverse_append]
    rfl
  have space : " timed out after ".toList.reverse ++ label.reverse =
      ' ' :: ("retfa tuo demit ".toList ++ label.reverse) := rfl
  rw [timedOut, reversed, space]
  simp only [List.takeWhile_append_of_pos digits, List.dropWhile_append_of_pos digits,
    Bool.and_eq_true]
  refine ⟨?_, rfl⟩
  cases run : (text ms).reverse with
  | nil => exact absurd run some_
  | cons c rest => rfl

theorem failed_of_ok {value : α} {label : Text}
    (h : withTimeout call.primary ends.timeoutMs label = .ok value) : ¬ call.Failed := by
  intro failed
  rcases failed with hung | ⟨error, rejected, -⟩
  · rw [hung] at h
    cases h
  · rw [rejected] at h
    cases h

/-- A silent primary is one whose timeout is worth a second call. -/
theorem failed_of_error {error : Thrown} {label : Text}
    (h : withTimeout call.primary ends.timeoutMs label = .error error) :
    call.Failed ↔ isFailoverWorthy error = true := by
  cases answer : call.primary with
  | resolved value =>
      rw [answer] at h
      cases h
  | rejected primaryError =>
      rw [answer] at h
      obtain rfl := Except.error.inj h
      refine ⟨fun failed => ?_, fun worthy => .inr ⟨_, answer, worthy⟩⟩
      rcases failed with hung | ⟨error, rejected, worthy⟩
      · cases answer.symm.trans hung
      · obtain rfl := Settled.rejected.inj (answer.symm.trans rejected)
        exact worthy
  | hung =>
      rw [answer] at h
      obtain rfl := Except.error.inj h
      refine ⟨fun _ => ?_, fun _ => .inl answer⟩
      rw [isFailoverWorthy, timedOut_timeoutMessage, Bool.true_or]

/-- What a call comes to, on whatever status. -/
theorem callWithFallback_cases (ends : Endpoints) (state : RpcStatus) (call : Call α) :
    (∃ value, ¬ (call.Failed ∧ ends.fallback.isSome = true) ∧
      callWithFallback ends state call = ⟨.ok value, [.primary], ⟨.primary, state.fallbackAt⟩⟩) ∨
    (∃ error, ¬ (call.Failed ∧ ends.fallback.isSome = true) ∧
      callWithFallback ends state call = ⟨.error error, [.primary], state⟩) ∨
    (∃ value, (call.Failed ∧ ends.fallback.isSome = true) ∧ callWithFallback ends state call =
      ⟨.ok value, [.primary, .fallback], ⟨.fallback, some call.now⟩⟩) ∨
    ∃ error, (call.Failed ∧ ends.fallback.isSome = true) ∧
      callWithFallback ends state call = ⟨.error error, [.primary, .fallback], state⟩ := by
  simp only [callWithFallback]
  split
  · next value served =>
      exact .inl ⟨value, fun failed => failed_of_ok served failed.1, rfl⟩
  · next primaryError unserved =>
      have worthy := failed_of_error unserved
      split
      · next alone =>
          refine .inr (.inl ⟨_, fun failed => ?_, rfl⟩)
          rw [worthy.mp failed.1, Option.isNone_eq_false_iff.mpr failed.2] at alone
          cases alone
      · next backed =>
          have failed : call.Failed ∧ ends.fallback.isSome = true := by
            rw [Bool.or_eq_true, not_or, Bool.not_eq_true, Option.isNone_eq_false_iff,
              Bool.not_eq_true, Bool.not_eq_false'] at backed
            exact ⟨worthy.mpr backed.2, backed.1⟩
          split
          · exact .inr (.inr (.inl ⟨_, failed, rfl⟩))
          · exact .inr (.inr (.inr ⟨_, failed, rfl⟩))

/-- The status plays no part in a call. -/
theorem callWithFallback_fresh : (callWithFallback ends state call).result =
    (callWithFallback ends .fresh call).result ∧ (callWithFallback ends state call).asked =
      (callWithFallback ends .fresh call).asked := by
  simp only [callWithFallback]
  split
  · exact ⟨rfl, rfl⟩
  · split
    · exact ⟨rfl, rfl⟩
    · split
      · exact ⟨rfl, rfl⟩
      · exact ⟨rfl, rfl⟩

/-- A call that failed leaves the status as it was. -/
theorem callWithFallback_state : (callWithFallback ends state call).state =
    match call.served ends with
    | some (.primary, _) => { state with endpoint := .primary }
    | some (.fallback, now) => ⟨.fallback, some now⟩
    | none => state := by
  obtain ⟨result, asked⟩ := @callWithFallback_fresh _ ends state call
  rw [Call.served, ← result, ← asked]
  rcases callWithFallback_cases ends state call with ⟨value, -, same⟩ | ⟨error, -, same⟩ |
    ⟨value, -, same⟩ | ⟨error, -, same⟩
  · rw [same]
    rfl
  · rw [same]
  · rw [same]
    rfl
  · rw [same]

theorem statusOf_append (served : List (Endpoint × Nat)) (at_ : Endpoint) (now : Nat) :
    statusOf (served ++ [(at_, now)]) =
      match at_ with
      | .primary => { statusOf served with endpoint := .primary }
      | .fallback => ⟨.fallback, some now⟩ := by
  cases at_ with
  | primary => simp [statusOf]
  | fallback => simp [statusOf]

theorem statusAfter_eq (calls : List (Call α)) :
    statusAfter ends calls = statusOf (calls.filterMap (Call.served ends)) := by
  induction calls using List.reverseRecOn with
  | nil => rfl
  | append_singleton earlier call ih =>
      rw [statusAfter, List.foldl_append, List.foldl_cons, List.foldl_nil, ← statusAfter, ih,
        callWithFallback_state, List.filterMap_append]
      cases served : call.served ends with
      | none => rw [List.filterMap_cons_none served, List.filterMap_nil, List.append_nil]
      | some entry =>
          obtain ⟨at_, now⟩ := entry
          rw [List.filterMap_cons_some served, List.filterMap_nil, statusOf_append]
          cases at_ with
          | primary => rfl
          | fallback => rfl

/-- No failover sticks. Whatever calls came before, a call asks the primary first, and the fallback
once more exactly when there is one and the primary said nothing in time or answered a 5xx or a
429. The status tells the endpoint of the last call that was served, and the time of the last one
the fallback served. -/
theorem failover_not_sticky (calls : List (Call α)) (call : Call α) :
    ((callWithFallback ends (statusAfter ends calls) call).asked = [.primary, .fallback] ↔
        call.Failed ∧ ends.fallback.isSome = true) ∧
      ((callWithFallback ends (statusAfter ends calls) call).asked = [.primary] ↔
        ¬ (call.Failed ∧ ends.fallback.isSome = true)) ∧
      statusAfter ends calls = statusOf (calls.filterMap (Call.served ends)) := by
  refine ⟨?_, ?_, statusAfter_eq calls⟩
  · rcases callWithFallback_cases ends (statusAfter ends calls) call with ⟨_, failed, same⟩ |
      ⟨_, failed, same⟩ | ⟨_, failed, same⟩ | ⟨_, failed, same⟩ <;> simp [same, failed]
  · rcases callWithFallback_cases ends (statusAfter ends calls) call with ⟨_, failed, same⟩ |
      ⟨_, failed, same⟩ | ⟨_, failed, same⟩ | ⟨_, failed, same⟩ <;> simp [same, failed]

end Failover

end Fallback

end HexVault
