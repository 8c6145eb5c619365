import HexVault.Api.Redeem
import HexVault.Lib.Rowwise

/-!
The signatures behind the rows. `POST /access/redeem` and `POST /referrals/apply` each check
a signature of the wallet over a message they build themselves. A code is kept without
lower-case letters and the words around it are not, so a message tells what it asks for, and
no request, whoever sends it and however often, writes a wallet down for another code.
-/

namespace HexVault

namespace Api

open Finmap Indexer ReadCommitted Runs

/-- What `normalizeInviteCode` leaves of a code that is not blank. -/
structure Normalized (code : String) : Prop where
  filled : code ≠ ""
  upper : ∀ c ∈ code.toList, c.isLower = false

/-- A missing code and an empty one are the same here. -/
def accessMessage (wallet code : String) (referralCode : Option String) : String :=
  match referralCode with
  | some referralCode =>
      if referralCode = "" then "HEXO access: " ++ wallet ++ " " ++ code
      else "HEXO access: " ++ wallet ++ " " ++ code ++ " ref:" ++ referralCode
  | none => "HEXO access: " ++ wallet ++ " " ++ code

def applyReferralMessage (wallet code : String) : String :=
  "HEXO apply referral: " ++ wallet ++ " " ++ code

/-- What a wallet's holder asks for by a signature. -/
inductive Intent where
  | redeem (code : String) (referralCode : Option String)
  | applyReferral (code : String)
  deriving DecidableEq, Repr

def Intent.message (wallet : String) : Intent → String
  | .redeem code referralCode => accessMessage wallet code referralCode
  | .applyReferral code => applyReferralMessage wallet code

def Intent.codes : Intent → List String
  | .redeem code referralCode => code :: referralCode.toList
  | .applyReferral code => [code]

def Intent.Normalized (intent : Intent) : Prop := ∀ code ∈ intent.codes, Api.Normalized code

section Messages
variable {wallet code code' referralCode : String} {other : Option String} {i j : Intent}

theorem Normalized.lacks {c : Char} (h : Normalized code) (lower : c.isLower = true) :
    c ∉ code.toList := fun mem => absurd ((h.upper c mem).symm.trans lower) Bool.false_ne_true

theorem accessMessage_some (h : Normalized referralCode) :
    (accessMessage wallet code (some referralCode)).toList =
      "HEXO access: ".toList ++ (wallet.toList ++ ' ' :: ((code.toList ++ [' ']) ++
        'r' :: ("ef:".toList ++ referralCode.toList))) := by
  rw [accessMessage, if_neg h.filled]
  simp

theorem accessMessage_none : (accessMessage wallet code none).toList =
    "HEXO access: ".toList ++ (wallet.toList ++ ' ' :: code.toList) := by
  simp [accessMessage]

/-- The codes of an access message, up to the first lower-case letter behind the wallet. -/
theorem accessMessage_inj {referralCode : Option String} (hc : Normalized code)
    (hc' : Normalized code') (hr : ∀ r ∈ referralCode, Normalized r)
    (ho : ∀ r ∈ other, Normalized r)
    (same : accessMessage wallet code referralCode = accessMessage wallet code' other) :
    code = code' ∧ referralCode = other := by
  have marked : ∀ {code : String}, Normalized code → 'r' ∉ code.toList ++ [' '] := by
    intro code h mem
    rcases List.mem_append.mp mem with inside | space
    · exact h.lacks (by decide) inside
    · exact absurd (List.mem_singleton.mp space) (by decide)
  have same := congrArg String.toList same
  cases referralCode with
  | none =>
      cases other with
      | none =>
          rw [accessMessage_none, accessMessage_none, List.append_cancel_left_eq,
            List.append_cancel_left_eq, List.cons_inj_right, String.toList_inj] at same
          exact ⟨same, rfl⟩
      | some r =>
          rw [accessMessage_none, accessMessage_some (ho r rfl), List.append_cancel_left_eq,
            List.append_cancel_left_eq, List.cons_inj_right] at same
          refine absurd ?_ (hc.lacks (c := 'r') (by decide))
          rw [same]
          exact List.mem_append_right _ (List.mem_cons_self ..)
  | some r =>
      cases other with
      | none =>
          rw [accessMessage_none, accessMessage_some (hr r rfl), List.append_cancel_left_eq,
            List.append_cancel_left_eq, List.cons_inj_right] at same
          refine absurd ?_ (hc'.lacks (c := 'r') (by decide))
          rw [← same]
          exact List.mem_append_right _ (List.mem_cons_self ..)
      | some r' =>
          rw [accessMessage_some (hr r rfl), accessMessage_some (ho r' rfl),
            List.append_cancel_left_eq, List.append_cancel_left_eq, List.cons_inj_right,
            List.append_cons_inj_of_notMem (marked hc) ?_, List.append_cancel_right_eq,
            List.append_cancel_left_eq, String.toList_inj, String.toList_inj] at same
          · exact ⟨same.1, congrArg some same.2.2⟩
          · intro mem
            rcases List.mem_append.mp mem with word | inside
            · exact absurd word (by decide)
            · exact (hr r rfl).lacks (by decide) inside

theorem applyReferralMessage_eq (wallet code : String) :
    applyReferralMessage wallet code = "HEXO apply referral: " ++ wallet ++ " " ++ code := rfl

theorem accessMessage_opens (wallet code : String) (referralCode : Option String) :
    ∃ rest, accessMessage wallet code referralCode = "HEXO access: " ++ rest := by
  cases referralCode with
  | none => exact ⟨wallet ++ " " ++ code, by simp only [accessMessage, String.append_assoc]⟩
  | some referralCode =>
      rw [accessMessage]
      split
      · exact ⟨wallet ++ " " ++ code, by simp only [String.append_assoc]⟩
      · exact ⟨wallet ++ " " ++ code ++ " ref:" ++ referralCode, by
          simp only [String.append_assoc]⟩

/-- The two messages part at their seventh letter. -/
theorem accessMessage_ne (wallet code code' : String) (referralCode : Option String) :
    accessMessage wallet code referralCode ≠ applyReferralMessage wallet code' := by
  intro same
  obtain ⟨rest, opens⟩ := accessMessage_opens wallet code referralCode
  rw [opens, applyReferralMessage_eq, String.append_assoc, String.append_assoc] at same
  have letters := congrArg String.toList same
  rw [String.toList_append, String.toList_append] at letters
  have seventh := congrArg (fun text => text[6]?) letters
  rw [List.getElem?_append_left (by decide), List.getElem?_append_left (by decide)] at seventh
  exact absurd seventh (by decide)

/-- A message means one thing, whoever it is shown to. -/
theorem message_inj (hi : i.Normalized) (hj : j.Normalized)
    (same : i.message wallet = j.message wallet) : i = j := by
  cases i with
  | redeem code referralCode =>
      cases j with
      | redeem code' other =>
          obtain ⟨rfl, rfl⟩ := accessMessage_inj (hi code (List.mem_cons_self ..))
            (hj code' (List.mem_cons_self ..))
            (fun r mem => hi r (List.mem_cons_of_mem _ (Option.mem_toList.mpr mem)))
            (fun r mem => hj r (List.mem_cons_of_mem _ (Option.mem_toList.mpr mem))) same
          rfl
      | applyReferral code' =>
          simp only [Intent.message] at same
          exact absurd same (accessMessage_ne wallet code code' referralCode)
  | applyReferral code =>
      cases j with
      | redeem code' other =>
          simp only [Intent.message] at same
          exact absurd same.symm (accessMessage_ne wallet code' code other)
      | applyReferral code' =>
          rw [Intent.message, Intent.message, applyReferralMessage_eq, applyReferralMessage_eq,
            String.append_right_inj] at same
          rw [same]

end Messages

/-! The requests. -/

/-- The keys as text, and whether a signature over a message is a wallet's own. -/
structure Keys where
  toBase58 : Pubkey → String
  verifySignedMessage : Pubkey → String → Bytes → Bool

def verifyAccessSignature (keys : Keys) (wallet : Pubkey) (code : String) (signature : Bytes)
    (referralCode : Option String) : Bool :=
  keys.verifySignedMessage wallet (accessMessage (keys.toBase58 wallet) code referralCode)
    signature

def verifyApplyReferralSignature (keys : Keys) (wallet : Pubkey) (code : String)
    (signature : Bytes) : Bool :=
  keys.verifySignedMessage wallet (applyReferralMessage (keys.toBase58 wallet) code) signature

/-- What `POST /referrals/apply` asks, with what the clock gives it. -/
structure ApplyReferral where
  wallet : Pubkey
  code : String
  boundAt : Int

/-- The statement an application is at; a refusal is an answer like any other. -/
inductive Applying where
  | findReferral
  | findReferrer
  | findPlayer (referrer : Pubkey)
  | bind (referrer : Pubkey) (principal : Int)
  | answered (applied : Bool) (reason : String)

/-- A Referral as `bindReferral` writes it. -/
def boundReferral (referee referrer : Pubkey) (code : String) (boundAt principal : Int) :
    ReferralRow :=
  let seeded := applyReferralEvent ⟨0, none⟩ (.deposited principal) boundAt
  { referee
    referrer
    code
    boundAt
    aboveSince := seeded.aboveSince
    principal := seeded.principal }

def applyReferral : ApplyReferral × Applying → Command Key Row (ApplyReferral × Applying)
  | (r, .findReferral) => .query fun rows =>
      if (rows.lookup (.referral r.wallet)).isSome then
        some (r, .answered false "This wallet already has a Referrer.")
      else some (r, .findReferrer)
  | (r, .findReferrer) => .query fun rows =>
      match findReferralCode rows r.code with
      | none => some (r, .answered false "That referral code does not exist.")
      | some owner =>
          if owner = r.wallet then
            some (r, .answered false "You cannot apply your own referral code.")
          else some (r, .findPlayer owner)
  | (r, .findPlayer referrer) => .query fun rows =>
      some (r, .bind referrer ((findPlayer rows r.wallet).getD 0))
  | (r, .bind referrer principal) => .write (.referral r.wallet) fun
      | none => some (.referral (boundReferral r.wallet referrer r.code r.boundAt principal),
          (r, .answered true "referral applied"))
      | some _ => none
  | (_, .answered ..) => .commit

/-- A request of either kind, at one of its statements. -/
abbrev Requesting := (Redeem × Redeeming) ⊕ (ApplyReferral × Applying)

def requests (settings : Settings) : Requesting → Command Key Row Requesting :=
  beside (redeem settings) applyReferral

def Redeem.intent (r : Redeem) : Intent := .redeem r.code r.referralCode

def ApplyReferral.intent (r : ApplyReferral) : Intent := .applyReferral r.code

/-- A request whose body parsed and whose signature was verified. -/
def Accepted (keys : Keys) : Requesting → Prop
  | .inl (r, state) => Starts (r, state) ∧ r.intent.Normalized ∧ ∃ signature,
      verifyAccessSignature keys r.wallet r.code signature r.referralCode = true
  | .inr (r, state) => state = .findReferral ∧ r.intent.Normalized ∧ ∃ signature,
      verifyApplyReferralSignature keys r.wallet r.code signature = true

/-! What a request may write. -/

section Consent
variable (asked : Pubkey → Intent → Prop)

/-- A row its wallet asked for: a redemption of the very code, a Referral to somebody else by
a code it named. Invite codes are counted and issued, and no other rows are written. -/
def Consented : Key → Row → Prop
  | .inviteRedemption wallet, .inviteRedemption row =>
      ∃ referralCode, asked wallet (.redeem row.code referralCode)
  | .referral referee, .referral row => row.referee = referee ∧ row.referrer ≠ referee ∧
      ∃ intent, asked referee intent ∧ row.code ∈ intent.codes
  | .inviteCode _, .inviteCode _ => True
  | _, _ => False

/-- A redemption on its way: its wallet asked for it, and who is to be bound is somebody else
found by a code of its own. -/
def Redeems (state : Redeem × Redeeming) : Prop :=
  asked state.1.wallet state.1.intent ∧ match state.2 with
    | .findReferrer _ code => code ∈ state.1.intent.codes
    | .findPlayer referrer code | .bind referrer code _ =>
        referrer ≠ state.1.wallet ∧ code ∈ state.1.intent.codes
    | _ => True

/-- The request is, as the kind it is, one its wallet asked for. -/
def Asks : Requesting → Prop
  | .inl (r, _) => asked r.wallet r.intent
  | .inr (r, _) => asked r.wallet r.intent

def Applies (state : ApplyReferral × Applying) : Prop :=
  asked state.1.wallet state.1.intent ∧ match state.2 with
    | .findPlayer referrer | .bind referrer _ => referrer ≠ state.1.wallet
    | _ => True

end Consent

section Requests
variable {asked : Pubkey → Intent → Prop} {settings : Settings} {keys : Keys} {r : Redeem}

theorem bindReferral_eq (referrer : Pubkey) (code : String) (principal : Int) :
    bindReferral r referrer code principal =
      boundReferral r.wallet referrer code r.boundAt principal := rfl

theorem consented_bound {referee referrer : Pubkey} {intent : Intent} {code : String}
    {boundAt principal : Int} (h : asked referee intent) (other : referrer ≠ referee)
    (named : code ∈ intent.codes) : Consented asked (.referral referee)
      (.referral (boundReferral referee referrer code boundAt principal)) :=
  ⟨rfl, other, intent, h, named⟩

theorem redeems_ownerBinding (invite : InviteCode) (h : asked r.wallet r.intent) :
    Redeems asked (r, ownerBinding r invite) := by
  rw [ownerBinding]
  split
  · split
    · rename_i owner _ other
      exact ⟨h, other, List.mem_cons_self ..⟩
    · exact ⟨h, trivial⟩
  · exact ⟨h, trivial⟩

theorem redeem_keeps (state : Redeem × Redeeming) (h : Redeems asked state) :
    (redeem settings state).Keeps (Redeems asked) (Consented asked) := by
  obtain ⟨r, at_⟩ := state
  obtain ⟨h, here⟩ := h
  cases at_ with
  | checkWallet =>
      intro rows next answer
      obtain ⟨-, same⟩ := Option.ite_none_left_eq_some.mp answer
      cases same
      exact ⟨h, trivial⟩
  | findInvite =>
      intro rows next answer
      obtain ⟨invite, -, rfl⟩ := Option.map_eq_some_iff.mp answer
      exact ⟨h, trivial⟩
  | consume invite =>
      intro old new next answer
      cases old with
      | none => cases answer
      | some old =>
          cases old with
          | inviteCode row =>
              obtain ⟨-, same⟩ := Option.ite_none_right_eq_some.mp answer
              cases same
              exact ⟨trivial, h, trivial⟩
          | inviteRedemption | referralCode | player | referral => cases answer
  | record invite =>
      intro old new next answer
      cases old with
      | none =>
          cases answer
          exact ⟨⟨r.referralCode, h⟩, h, trivial⟩
      | some old => cases answer
  | findReferral invite =>
      intro rows next answer
      dsimp only at answer
      split at answer
      · cases answer
        exact ⟨h, trivial⟩
      · split at answer
        · rename_i code hcode
          cases answer
          exact ⟨h, List.mem_cons_of_mem _ (Option.mem_toList.mpr hcode)⟩
        · cases answer
          exact redeems_ownerBinding invite h
  | findReferrer invite code =>
      intro rows next answer
      dsimp only at answer
      split at answer
      · split at answer
        · rename_i owner _ other
          cases answer
          exact ⟨h, other, here⟩
        · cases answer
          exact redeems_ownerBinding invite h
      · cases answer
        exact redeems_ownerBinding invite h
  | findPlayer referrer code =>
      intro rows next answer
      cases answer
      exact ⟨h, here⟩
  | bind referrer code principal =>
      intro old new next answer
      cases old with
      | none =>
          cases answer
          rw [bindReferral_eq]
          exact ⟨consented_bound h here.1 here.2, h, trivial⟩
      | some old => cases answer
  | lock => exact ⟨h, trivial⟩
  | aggregate =>
      intro rows next answer
      cases answer
      exact ⟨h, trivial⟩
  | grant codes =>
      cases codes with
      | nil => trivial
      | cons code rest =>
          intro old new next answer
          cases old with
          | none =>
              cases answer
              exact ⟨trivial, h, trivial⟩
          | some old => cases answer

theorem applyReferral_keeps (state : ApplyReferral × Applying) (h : Applies asked state) :
    (applyReferral state).Keeps (Applies asked) (Consented asked) := by
  obtain ⟨r, at_⟩ := state
  obtain ⟨h, here⟩ := h
  cases at_ with
  | findReferral =>
      intro rows next answer
      dsimp only at answer
      split at answer
      · cases answer
        exact ⟨h, trivial⟩
      · cases answer
        exact ⟨h, trivial⟩
  | findReferrer =>
      intro rows next answer
      dsimp only at answer
      split at answer
      · cases answer
        exact ⟨h, trivial⟩
      · split at answer
        · cases answer
          exact ⟨h, trivial⟩
        · rename_i owner _ other
          cases answer
          exact ⟨h, other⟩
  | findPlayer referrer =>
      intro rows next answer
      cases answer
      exact ⟨h, here⟩
  | bind referrer principal =>
      intro old new next answer
      cases old with
      | none =>
          cases answer
          exact ⟨consented_bound h here (List.mem_singleton.mpr rfl), h, trivial⟩
      | some old => cases answer
  | answered => trivial

/-- A verified request is one its wallet asked for, and no other. -/
theorem accepted_asked (signs : ∀ wallet message signature,
      keys.verifySignedMessage wallet message signature = true → ∃ intent, asked wallet intent ∧
        intent.Normalized ∧ intent.message (keys.toBase58 wallet) = message)
    (state : Requesting) (h : Accepted keys state) :
    Sum.elim (Redeems asked) (Applies asked) state := by
  cases state with
  | inl state =>
      obtain ⟨r, at_⟩ := state
      obtain ⟨starts, normalized, signature, verified⟩ := h
      obtain rfl : at_ = .checkWallet := starts
      obtain ⟨intent, asks, plain, same⟩ := signs _ _ _ verified
      obtain rfl : intent = r.intent := message_inj plain normalized same
      exact ⟨asks, trivial⟩
  | inr state =>
      obtain ⟨r, at_⟩ := state
      obtain ⟨rfl, normalized, signature, verified⟩ := h
      obtain ⟨intent, asks, plain, same⟩ := signs _ _ _ verified
      obtain rfl : intent = r.intent := message_inj plain normalized same
      exact ⟨asks, trivial⟩

theorem asks_of_reached {state : Requesting}
    (reached : Sum.elim (Redeems asked) (Applies asked) state) : Asks asked state := by
  cases state with
  | inl state => exact reached.1
  | inr state => exact reached.1

end Requests

section Runs
variable {τ : Type} [DecidableEq τ] {settings : Settings} {keys : Keys}
  {start s : Store Key Row Requesting τ}
  {history : List (Store Key Row Requesting τ × τ × Turn Requesting)}

/-- Any number of requests at once, whoever sends them: each that was let in is what its wallet
asked for by a signature, the kind of request included, and each row was there before or its wallet
asked for it. -/
theorem requests_consented (asked : Pubkey → Intent → Prop)
    (signs : ∀ wallet message signature,
      keys.verifySignedMessage wallet message signature = true → ∃ intent, asked wallet intent ∧
        intent.Normalized ∧ intent.message (keys.toBase58 wallet) = message)
    (idle : ∀ t, start.sessions t = none)
    (run : Steps (ReadCommitted.Step (requests settings) (Accepted keys)) start history s) :
    (∀ x ∈ history, ∀ state, x.2.2 = .start state → Asks asked state) ∧
      ∀ key row, s.committed.lookup key = some row →
        start.committed.lookup key = some row ∨ Consented asked key row := by
  constructor
  · intro x mem state begins
    exact asks_of_reached (accepted_asked signs state (started_initial run mem begins))
  · intro key row found
    exact rows_written (accepted_asked signs) (beside_keeps redeem_keeps applyReferral_keeps) idle
      run found

end Runs

namespace Demo

/-- Wallet 7 signed one request. -/
def keys : Keys where
  toBase58 := fun wallet => if wallet = ⟨7⟩ then "GmD7" else "9hSR"
  verifySignedMessage := fun wallet message _ =>
    decide (wallet = ⟨7⟩ ∧ message = applyReferralMessage "GmD7" "REFC2345")

def application : ApplyReferral := ⟨⟨7⟩, "REFC2345", 1000⟩

/-- A code of wallet 9. -/
def referrals : Store Key Row Requesting Unit :=
  ⟨(∅ : Rows).insert (.referralCode "REFC2345") (.referralCode ⟨9⟩), fun _ => none⟩

theorem normalized : application.intent.Normalized := by
  intro code mem
  obtain rfl := List.mem_singleton.mp mem
  have upper : ("REFC2345".toList.all fun c => !c.isLower) = true := by decide
  exact ⟨by decide, fun c hc => Bool.not_eq_true' _ ▸ List.all_eq_true.mp upper c hc⟩

theorem applied : ∃ history s,
    Steps (ReadCommitted.Step (requests settings) (Accepted keys)) referrals history s ∧
      s.committed.lookup (.referral ⟨7⟩) =
        some (.referral (boundReferral ⟨7⟩ ⟨9⟩ "REFC2345" 1000 0)) := by
  have alone : ∀ (u : Unit), u ≠ () → False := fun _ ne => ne rfl
  have before : Steps (ReadCommitted.Step (requests settings) (Accepted keys)) referrals []
    referrals := .start
  have accepted : Accepted keys (.inr (application, .findReferral)) :=
    ⟨rfl, normalized, [], by decide⟩
  have finished := (((((before.next
    (.started (t := ()) rfl accepted)).next
    (.queried (t := ()) rfl rfl rfl)).next
    (.queried (t := ()) rfl rfl rfl)).next
    (.queried (t := ()) rfl rfl rfl)).next
    (.written (t := ()) rfl rfl (fun u ne => (alone u ne).elim) rfl)).next
    (.committed (t := ()) rfl rfl)
  exact ⟨_, _, finished, rfl⟩

end Demo

/-- Wallet 7 is bound to wallet 9 by the code it signed, and no request of its was let in but
that application. -/
theorem requests_consented_applied :
    ∃ (history : List (Store Key Row Requesting Unit × Unit × Turn Requesting)) (row : ReferralRow),
    (∀ x ∈ history, ∀ state, x.2.2 = .start state →
      Asks (fun wallet intent => wallet = ⟨7⟩ ∧ intent = .applyReferral "REFC2345") state) ∧
    Consented (fun wallet intent => wallet = ⟨7⟩ ∧ intent = .applyReferral "REFC2345")
      (.referral ⟨7⟩) (.referral row) ∧ row.referrer = ⟨9⟩ := by
  obtain ⟨history, s, run, found⟩ := Demo.applied
  have consented := requests_consented
    (fun wallet intent => wallet = ⟨7⟩ ∧ intent = .applyReferral "REFC2345") ?_ (fun _ => rfl) run
  · exact ⟨history, _, consented.1, (consented.2 _ _ found).resolve_left
      (Option.some_ne_none _).symm, rfl⟩
  · intro wallet message signature verified
    obtain ⟨rfl, rfl⟩ := of_decide_eq_true verified
    exact ⟨Demo.application.intent, ⟨rfl, rfl⟩, Demo.normalized, rfl⟩

end Api

end HexVault
