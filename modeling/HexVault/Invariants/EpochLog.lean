import HexVault.Invariants.Journaled

/-!
An epoch as its events tell it: it begins, owners register on a line that grows without gap or
overlap, and then at most one draw happens and at most one ending. What is shown here holds of
every sound log, so of the log of every reachable state.
-/

namespace HexVault

open Fallible Journals

/-- One owner's stretch of an epoch's line. -/
structure Slot where
  owner : Pubkey
  regStart : Nat
  regEnd : Nat
  deriving DecidableEq, Repr

def Slot.Contains (slot : Slot) (target : Nat) : Prop :=
  slot.regStart ≤ target ∧ target < slot.regEnd

/-- Slots laid end to end from 0 to a point. -/
inductive Laid : List Slot → Nat → Prop
  | nil : Laid [] 0
  | append {slots : List Slot} {width : Nat} {slot : Slot} (before : Laid slots width)
      (starts : slot.regStart = width) (grows : width < slot.regEnd) :
      Laid (slots ++ [slot]) slot.regEnd

/-- How far an epoch's draw has come. -/
inductive DrawTale where
  | undrawn
  | drawn (target : Nat)
  | rolledOver (jackpotAmount : Nat)
  | drawnRolledOver (target jackpotAmount : Nat)
  | paid (target : Nat) (winner : Slot) (amount : Nat) (isHouse : Bool)
  deriving DecidableEq, Repr

structure EpochTale where
  startsAt : Int
  endsAt : Int
  slots : List Slot
  registeredWeight : Nat
  draw : DrawTale

/-- The events of one epoch's life. -/
def Event.ofEpoch (id : Nat) : Event → Bool
  | .epochBegan epochId .. | .registered epochId .. | .epochDrawn epochId ..
  | .jackpotPaid epochId .. | .epochRolledOver epochId .. => epochId == id
  | _ => false

def Slot.event (id : Nat) (slot : Slot) : Event :=
  .registered id slot.owner (slot.regEnd - slot.regStart) slot.regStart slot.regEnd

def DrawTale.events (id weight : Nat) : DrawTale → List Event
  | .undrawn => []
  | .drawn target => [.epochDrawn id target weight]
  | .rolledOver amount => [.epochRolledOver id amount]
  | .drawnRolledOver target amount =>
      [.epochDrawn id target weight, .epochRolledOver id amount]
  | .paid target winner amount isHouse =>
      [.epochDrawn id target weight, .jackpotPaid id winner.owner amount isHouse (!isHouse)]

/-- The tale as the log tells it. -/
def EpochTale.events (id : Nat) (tale : EpochTale) : List Event :=
  .epochBegan id tale.startsAt tale.endsAt ::
    (tale.slots.map (Slot.event id) ++ tale.draw.events id tale.registeredWeight)

/-- A target lies on the line, and a winner is the one owner whose slot contains it. -/
def DrawTale.Fair (slots : List Slot) (weight : Nat) : DrawTale → Prop
  | .undrawn | .rolledOver _ => True
  | .drawn target | .drawnRolledOver target _ => target < weight
  | .paid target winner _ _ => target < weight ∧ winner ∈ slots ∧ winner.Contains target ∧
      ∀ slot ∈ slots, slot.Contains target → slot = winner

structure EpochTale.Fair (tale : EpochTale) : Prop where
  distinct : (tale.slots.map Slot.owner).Nodup
  laid : Laid tale.slots tale.registeredWeight
  draw : tale.draw.Fair tale.slots tale.registeredWeight

/-! The tale and the books. -/

def DrawTale.book : DrawTale → DrawBook
  | .undrawn => .undrawn
  | .drawn target => .drawn target
  | .rolledOver _ | .drawnRolledOver _ _ => .rolledOver
  | .paid target winner _ _ => .paid target winner.owner

def Balance.slot (owner : Pubkey) (b : Balance) : Slot := ⟨owner, b.regStart, b.regEnd⟩

/-- The tale of an epoch fits what the books say of it. -/
structure EpochTale.Fits (tale : EpochTale) (id : Nat) (epoch : EpochBook) (books : Journal) :
    Prop where
  weight : tale.registeredWeight = epoch.registeredWeight
  draw : tale.draw.book = epoch.draw
  holders : ∀ {owner}, (books.balances owner).regEpoch = id →
    (books.balances owner).slot owner ∈ tale.slots
  latest : books.currentEpochId ≤ id + 1 → ∀ slot ∈ tale.slots,
    (books.balances slot.owner).regEpoch = id
  fresh : books.currentEpochId ≤ id → tale.slots = []

/-- Every epoch in the books has a fair tale, and no other one is told. -/
structure EpochsTold (log : List Event) (books : Journal) : Prop where
  begun : ∀ {id epoch}, books.epochs id = some epoch → 1 ≤ id ∧ id ≤ books.currentEpochId
  registered : ∀ owner, (books.balances owner).regEpoch ≤ books.currentEpochId
  untold : ∀ {id}, books.epochs id = none → log.filter (Event.ofEpoch id) = []
  told : ∀ {id epoch}, books.epochs id = some epoch → ∃ tale : EpochTale,
    tale.Fair ∧ tale.Fits id epoch books ∧ log.filter (Event.ofEpoch id) = tale.events id

section Line
variable {slots : List Slot} {width : Nat} {slot other : Slot} {target : Nat}

theorem Laid.within (h : Laid slots width) (mem : slot ∈ slots) : slot.regEnd ≤ width := by
  induction h with
  | nil => exact absurd mem List.not_mem_nil
  | append before starts grows ih =>
      rcases List.mem_append.mp mem with early | last
      · have := ih early
        omega
      · exact Nat.le_of_eq (congrArg Slot.regEnd (List.mem_singleton.mp last))

/-- No target lies in two slots. -/
theorem Laid.unique (h : Laid slots width) (ms : slot ∈ slots) (mo : other ∈ slots)
    (hs : slot.Contains target) (ho : other.Contains target) : slot = other := by
  induction h with
  | nil => exact absurd ms List.not_mem_nil
  | append before starts grows ih =>
      obtain ⟨startS, endS⟩ := hs
      obtain ⟨startO, endO⟩ := ho
      rcases List.mem_append.mp ms with earlyS | lastS <;>
        rcases List.mem_append.mp mo with earlyO | lastO
      · exact ih earlyS earlyO
      · obtain rfl := List.mem_singleton.mp lastO
        have := before.within earlyS
        omega
      · obtain rfl := List.mem_singleton.mp lastS
        have := before.within earlyO
        omega
      · rw [List.mem_singleton.mp lastS, List.mem_singleton.mp lastO]

end Line

section Told
variable {log : List Event} {books books' : Journal} {event : Event} {id : Nat}
  {epoch epoch' : EpochBook}

theorem epochsTold_empty : EpochsTold [] Journal.empty where
  begun := fun h => by cases h
  registered := fun _ => Nat.le_refl 0
  untold := fun _ => rfl
  told := fun h => by cases h

/-- What a balance keeps of its registration. -/
def SameSlots (books books' : Journal) : Prop := ∀ owner,
  (books'.balances owner).regEpoch = (books.balances owner).regEpoch ∧
    (books'.balances owner).slot owner = (books.balances owner).slot owner

theorem EpochTale.Fits.same {tale : EpochTale} (h : tale.Fits id epoch books)
    (current : books'.currentEpochId = books.currentEpochId) (slots : SameSlots books books') :
    tale.Fits id epoch books' where
  weight := h.weight
  draw := h.draw
  holders := by
    intro owner registered
    rw [(slots owner).1] at registered
    rw [(slots owner).2]
    exact h.holders registered
  latest := by
    intro late slot mem
    rw [(slots slot.owner).1]
    exact h.latest (current ▸ late) slot mem
  fresh := fun late => h.fresh (current ▸ late)

/-- An event of no epoch that changes no registration. -/
theorem EpochsTold.quiet (hi : EpochsTold log books) (other : ∀ id, event.ofEpoch id = false)
    (epochs : books'.epochs = books.epochs)
    (current : books'.currentEpochId = books.currentEpochId) (slots : SameSlots books books') :
    EpochsTold (log ++ [event]) books' where
  begun := by
    intro id epoch h
    rw [epochs] at h
    exact current ▸ hi.begun h
  registered := by
    intro owner
    rw [(slots owner).1, current]
    exact hi.registered owner
  untold := by
    intro id h
    rw [epochs] at h
    rw [filter_snoc_of_neg (other id)]
    exact hi.untold h
  told := by
    intro id epoch h
    rw [epochs] at h
    obtain ⟨tale, fair, fits, events⟩ := hi.told h
    exact ⟨tale, fair, fits.same current slots, (filter_snoc_of_neg (other id)).trans events⟩

/-- An event of one known epoch. What changes a registration registers for the epoch just before
the current one. -/
theorem EpochsTold.tell (hi : EpochsTold log books) (he : books.epochs id = some epoch)
    (own : ∀ other, event.ofEpoch other = (id == other))
    (epochs : books'.epochs = Function.update books.epochs id (some epoch'))
    (current : books'.currentEpochId = books.currentEpochId)
    (slots : ∀ owner, ((books'.balances owner).regEpoch = (books.balances owner).regEpoch ∧
      (books'.balances owner).slot owner = (books.balances owner).slot owner) ∨
      ((books'.balances owner).regEpoch = id ∧ id + 1 = books.currentEpochId))
    (next : ∀ {tale : EpochTale}, tale.Fair → tale.Fits id epoch books → ∃ tale' : EpochTale,
      tale'.Fair ∧ tale'.Fits id epoch' books' ∧ tale'.events id = tale.events id ++ [event]) :
    EpochsTold (log ++ [event]) books' where
  begun := by
    intro other x h
    rw [epochs] at h
    rw [current]
    by_cases same : other = id
    · exact same ▸ hi.begun he
    · rw [Function.update_of_ne same] at h
      exact hi.begun h
  registered := by
    intro owner
    rw [current]
    rcases slots owner with ⟨kept, -⟩ | ⟨new, closing⟩
    · exact kept ▸ hi.registered owner
    · omega
  untold := by
    intro other h
    rw [epochs] at h
    by_cases same : other = id
    · subst same
      rw [Function.update_self] at h
      cases h
    · rw [Function.update_of_ne same] at h
      rw [filter_snoc_of_neg ((own other).trans (beq_false_of_ne (Ne.symm same)))]
      exact hi.untold h
  told := by
    intro other x h
    rw [epochs] at h
    by_cases same : other = id
    · subst same
      rw [Function.update_self] at h
      obtain rfl := Option.some.inj h
      obtain ⟨tale, fair, fits, events⟩ := hi.told he
      obtain ⟨tale', fair', fits', events'⟩ := next fair fits
      exact ⟨tale', fair', fits', by
        rw [filter_snoc_of_pos ((own other).trans (beq_self_eq_true other)), events, events']⟩
    · rw [Function.update_of_ne same] at h
      obtain ⟨tale, fair, fits, events⟩ := hi.told h
      refine ⟨tale, fair, ⟨fits.weight, fits.draw, ?_, ?_, ?_⟩, ?_⟩
      · intro owner registered
        rcases slots owner with ⟨kept, slot⟩ | ⟨new, -⟩
        · rw [slot]
          exact fits.holders (kept.symm.trans registered)
        · exact absurd (registered.symm.trans new) same
      · intro late slot mem
        rw [current] at late
        rcases slots slot.owner with ⟨kept, -⟩ | ⟨-, closing⟩
        · exact kept.trans (fits.latest late slot mem)
        · -- An epoch later than the one before the current is the current one: nobody registered.
          rw [fits.fresh (by omega)] at mem
          exact absurd mem List.not_mem_nil
      · exact fun late => fits.fresh (current ▸ late)
      · rw [filter_snoc_of_neg ((own other).trans (beq_false_of_ne (Ne.symm same))), events]

theorem began_ofEpoch {startsAt endsAt : Int} {other : Nat} :
    (Event.epochBegan id startsAt endsAt).ofEpoch other = (id == other) := rfl

theorem began_epochs {startsAt endsAt : Int} :
    (books.record (.epochBegan id startsAt endsAt)).epochs =
      Function.update books.epochs id (some ⟨startsAt, endsAt, 0, 0, .undrawn⟩) := rfl

/-- A new epoch: its tale is its beginning alone. -/
theorem EpochsTold.begin {startsAt endsAt : Int} (hi : EpochsTold log books)
    (fresh : books.epochs (books.currentEpochId + 1) = none) :
    EpochsTold (log ++ [.epochBegan (books.currentEpochId + 1) startsAt endsAt])
      (books.record (.epochBegan (books.currentEpochId + 1) startsAt endsAt)) where
  begun := by
    intro other x h
    by_cases same : other = books.currentEpochId + 1
    · subst same
      exact ⟨Nat.le_add_left 1 _, Nat.le_refl _⟩
    · have known : books.epochs other = some x := by
        rw [← h]
        exact (Function.update_of_ne same ..).symm
      have := hi.begun known
      exact ⟨this.1, Nat.le_succ_of_le this.2⟩
  registered := fun owner => Nat.le_succ_of_le (hi.registered owner)
  untold := by
    intro other h
    by_cases same : other = books.currentEpochId + 1
    · subst same
      rw [began_epochs, Function.update_self] at h
      cases h
    · rw [began_epochs, Function.update_of_ne same] at h
      rw [filter_snoc_of_neg (began_ofEpoch.trans (beq_false_of_ne (Ne.symm same)))]
      exact hi.untold h
  told := by
    intro other x h
    by_cases same : other = books.currentEpochId + 1
    · subst same
      rw [began_epochs, Function.update_self] at h
      obtain rfl := Option.some.inj h
      refine ⟨⟨startsAt, endsAt, [], 0, .undrawn⟩, ⟨List.nodup_nil, .nil, trivial⟩,
        ⟨rfl, rfl, ?_, ?_, fun _ => rfl⟩, ?_⟩
      · intro owner registered
        have behind := hi.registered owner
        have ahead : (books.balances owner).regEpoch = books.currentEpochId + 1 := registered
        omega
      · intro _ slot mem
        exact absurd mem List.not_mem_nil
      · rw [filter_snoc_of_pos (began_ofEpoch.trans (beq_self_eq_true _)), hi.untold fresh]
        rfl
    · rw [began_epochs, Function.update_of_ne same] at h
      obtain ⟨tale, fair, fits, events⟩ := hi.told h
      have known := (hi.begun h).2
      refine ⟨tale, fair, ⟨fits.weight, fits.draw, fits.holders, ?_, ?_⟩, ?_⟩
      · intro late slot mem
        have late : books.currentEpochId + 1 ≤ other + 1 := late
        exact fits.latest (by omega) slot mem
      · intro late
        have late : books.currentEpochId + 1 ≤ other := late
        omega
      · rw [filter_snoc_of_neg (began_ofEpoch.trans (beq_false_of_ne (Ne.symm same))), events]

theorem write_slots {owner : Pubkey} {change : Balance → Balance}
    (same : ∀ b, (change b).regEpoch = b.regEpoch ∧ (change b).regStart = b.regStart ∧
      (change b).regEnd = b.regEnd) : SameSlots books (books.write owner change) := by
  intro other
  by_cases own : other = owner
  · subst own
    simp only [Journal.write, Function.update_self, Balance.slot, same, and_self]
  · simp only [Journal.write, Function.update_of_ne own, and_self]

theorem DrawTale.book_undrawn {draw : DrawTale} (h : draw.book = .undrawn) : draw = .undrawn := by
  cases draw with
  | undrawn => rfl
  | _ => cases h

theorem DrawTale.book_drawn {draw : DrawTale} {target : Nat} (h : draw.book = .drawn target) :
    draw = .drawn target := by
  cases draw with
  | drawn t =>
      cases h
      rfl
  | _ => cases h

/-- A registration takes the next slot. -/
theorem EpochTale.Fits.register {tale : EpochTale} {owner : Pubkey} {weight : Nat}
    (fair : tale.Fair) (fits : tale.Fits id epoch books) (undrawn : epoch.draw = .undrawn)
    (closing : id + 1 = books.currentEpochId) (fresh : (books.balances owner).regEpoch ≠ id)
    (positive : 0 < weight) : ∃ tale' : EpochTale, tale'.Fair ∧
      tale'.Fits id (epoch.register (epoch.registeredWeight + weight))
        (books.record (.registered id owner weight epoch.registeredWeight
          (epoch.registeredWeight + weight))) ∧
      tale'.events id = tale.events id ++ [.registered id owner weight epoch.registeredWeight
        (epoch.registeredWeight + weight)] := by
  have draw := DrawTale.book_undrawn (fits.draw.trans undrawn)
  have absent : ∀ slot ∈ tale.slots, slot.owner ≠ owner := by
    intro slot mem same
    exact fresh (same ▸ fits.latest (Nat.le_of_eq closing.symm) slot mem)
  refine ⟨{ tale with
      slots := tale.slots ++ [⟨owner, epoch.registeredWeight, epoch.registeredWeight + weight⟩]
      registeredWeight := epoch.registeredWeight + weight }, ⟨?_, ?_, ?_⟩,
    ⟨rfl, fits.draw, ?_, ?_, ?_⟩, ?_⟩
  · simp only [List.map_append, List.map_cons, List.map_nil]
    refine List.nodup_append.mpr ⟨fair.distinct, List.nodup_singleton _, ?_⟩
    intro x mem y single same
    obtain ⟨slot, inside, rfl⟩ := List.mem_map.mp mem
    exact absent slot inside (same.trans (List.mem_singleton.mp single))
  · exact .append fair.laid fits.weight.symm (fits.weight ▸ Nat.lt_add_of_pos_right positive)
  · rw [draw]
    trivial
  · intro other registered
    by_cases same : other = owner
    · subst same
      simp only [Journal.record, Journal.writeEpoch, Journal.write, Function.update_self,
        Balance.slot, Balance.register]
      exact List.mem_append_right _ (List.mem_singleton.mpr rfl)
    · simp only [Journal.record, Journal.writeEpoch, Journal.write,
        Function.update_of_ne same] at registered ⊢
      exact List.mem_append_left _ (fits.holders registered)
  · intro late slot mem
    rcases List.mem_append.mp mem with early | last
    · simp only [Journal.record, Journal.writeEpoch, Journal.write,
        Function.update_of_ne (absent slot early)]
      exact fits.latest late slot early
    · obtain rfl := List.mem_singleton.mp last
      simp only [Journal.record, Journal.writeEpoch, Journal.write, Function.update_self,
        Balance.register]
  · intro late
    have late : books.currentEpochId ≤ id := late
    omega
  · simp only [EpochTale.events, draw, DrawTale.events, List.append_nil, List.map_append,
      List.map_cons, List.map_nil, Slot.event, Nat.add_sub_cancel_left, List.cons_append]

/-- The next part of a draw, where the books' registrations stay. -/
theorem EpochTale.Fits.redraw {tale : EpochTale} {draw : DrawTale} (fair : tale.Fair)
    (fits : tale.Fits id epoch books) (fairly : draw.Fair tale.slots tale.registeredWeight)
    (current : books'.currentEpochId = books.currentEpochId) (slots : SameSlots books books')
    (events : draw.events id tale.registeredWeight =
      tale.draw.events id tale.registeredWeight ++ [event]) : ∃ tale' : EpochTale, tale'.Fair ∧
      tale'.Fits id { epoch with draw := draw.book } books' ∧
      tale'.events id = tale.events id ++ [event] := by
  have kept := fits.same current slots
  refine ⟨{ tale with draw }, ⟨fair.distinct, fair.laid, fairly⟩,
    ⟨kept.weight, rfl, kept.holders, kept.latest, kept.fresh⟩, ?_⟩
  simp only [EpochTale.events, events, List.cons_append, List.append_assoc]

theorem sameSlots_refl : SameSlots books books := fun _ => ⟨rfl, rfl⟩

theorem writeEpoch_epochs {change : EpochBook → EpochBook} (he : books.epochs id = some epoch) :
    (books.writeEpoch id change).epochs =
      Function.update books.epochs id (some (change epoch)) := by
  rw [Journal.writeEpoch, he, Option.map_some]

theorem EpochsTold.draw {target : Nat} (hi : EpochsTold log books)
    (he : books.epochs id = some epoch) (undrawn : epoch.draw = .undrawn)
    (inside : target < epoch.registeredWeight) :
    EpochsTold (log ++ [.epochDrawn id target epoch.registeredWeight])
      (books.record (.epochDrawn id target epoch.registeredWeight)) := by
  refine hi.tell he (fun _ => rfl) (writeEpoch_epochs he) rfl (fun _ => .inl ⟨rfl, rfl⟩) ?_
  intro tale fair fits
  have before := DrawTale.book_undrawn (fits.draw.trans undrawn)
  have fairly : (DrawTale.drawn target).Fair tale.slots tale.registeredWeight :=
    fits.weight ▸ inside
  refine fits.redraw fair fairly rfl sameSlots_refl ?_
  rw [before, ← fits.weight]
  rfl

theorem EpochsTold.pay {target amount : Nat} {winner : Pubkey} {isHouse : Bool}
    (hi : EpochsTold log books) (he : books.epochs id = some epoch)
    (drawn : epoch.draw = .drawn target) (registered : (books.balances winner).regEpoch = id)
    (contains : ((books.balances winner).slot winner).Contains target) :
    EpochsTold (log ++ [.jackpotPaid id winner amount isHouse !isHouse])
      (books.record (.jackpotPaid id winner amount isHouse !isHouse)) := by
  have slots : SameSlots books (books.record (.jackpotPaid id winner amount isHouse !isHouse)) := by
    cases isHouse with
    | false => exact write_slots fun _ => ⟨rfl, rfl, rfl⟩
    | true => exact sameSlots_refl
  have epochs : (books.record (.jackpotPaid id winner amount isHouse !isHouse)).epochs =
      Function.update books.epochs id (some (epoch.pay winner)) := by
    cases isHouse with
    | false => exact writeEpoch_epochs he
    | true => exact writeEpoch_epochs he
  refine hi.tell he (fun _ => rfl) epochs ?_ (fun owner => .inl (slots owner)) ?_
  · cases isHouse with
    | false => rfl
    | true => rfl
  · intro tale fair fits
    have before := DrawTale.book_drawn (fits.draw.trans drawn)
    have inside : target < tale.registeredWeight := by
      have fairly := fair.draw
      rwa [before] at fairly
    have mem := fits.holders registered
    have paid : epoch.pay winner =
        { epoch with
          draw := (DrawTale.paid target ((books.balances winner).slot winner) amount
            isHouse).book } := by
      rw [EpochBook.pay, drawn, DrawBook.pay, DrawTale.book]
      rfl
    rw [paid]
    refine fits.redraw fair ⟨inside, mem, contains, ?_⟩ ?_ slots ?_
    · intro slot other holds
      exact fair.laid.unique other mem holds contains
    · cases isHouse with
      | false => rfl
      | true => rfl
    · rw [before]
      rfl

theorem EpochsTold.rollOver {amount : Nat} (hi : EpochsTold log books)
    (he : books.epochs id = some epoch)
    (live : epoch.draw = .undrawn ∨ ∃ target, epoch.draw = .drawn target) :
    EpochsTold (log ++ [.epochRolledOver id amount])
      (books.record (.epochRolledOver id amount)) := by
  refine hi.tell he (fun _ => rfl) (writeEpoch_epochs he) rfl (fun _ => .inl ⟨rfl, rfl⟩) ?_
  intro tale fair fits
  rcases live with undrawn | ⟨target, drawn⟩
  · have before := DrawTale.book_undrawn (fits.draw.trans undrawn)
    have fairly : (DrawTale.rolledOver amount).Fair tale.slots tale.registeredWeight := trivial
    refine fits.redraw fair fairly rfl sameSlots_refl ?_
    rw [before]
    rfl
  · have before := DrawTale.book_drawn (fits.draw.trans drawn)
    have inside := fair.draw
    rw [before] at inside
    have fairly : (DrawTale.drawnRolledOver target amount).Fair tale.slots
        tale.registeredWeight := inside
    refine fits.redraw fair fairly rfl sameSlots_refl ?_
    rw [before]
    rfl

/-- One more valid event keeps every tale. -/
theorem EpochsTold.next (hi : EpochsTold log books) (valid : books.Valid event) :
    EpochsTold (log ++ [event]) (books.record event) := by
  have quiet : (∀ id, event.ofEpoch id = false) →
      (books.record event).epochs = books.epochs →
      (books.record event).currentEpochId = books.currentEpochId →
      SameSlots books (books.record event) → EpochsTold (log ++ [event]) (books.record event) :=
    fun other epochs current slots => hi.quiet other epochs current slots
  cases event with
  | epochBegan epochId startsAt endsAt =>
      obtain ⟨rfl, fresh⟩ := valid
      exact hi.begin fresh
  | registered epochId owner weight regStart regEnd =>
      obtain ⟨epoch, he, undrawn, closing, fresh, positive, rfl, rfl⟩ := valid
      refine hi.tell he (fun _ => rfl) (writeEpoch_epochs he) rfl ?_ fun fair fits =>
        fits.register fair undrawn closing fresh positive
      intro other
      by_cases same : other = owner
      · subst same
        right
        simp only [Journal.record, Journal.writeEpoch, Journal.write, Function.update_self,
          Balance.register, true_and]
        exact closing
      · left
        simp only [Journal.record, Journal.writeEpoch, Journal.write, Function.update_of_ne same,
          and_self]
  | epochDrawn epochId target weight =>
      obtain ⟨epoch, he, undrawn, rfl, inside⟩ := valid
      exact hi.draw he undrawn inside
  | jackpotPaid epochId winner amount isHouse compounded =>
      obtain ⟨rfl, epoch, target, he, drawn, registered, contains⟩ := valid
      exact hi.pay he drawn registered contains
  | epochRolledOver epochId amount =>
      obtain ⟨epoch, he, live⟩ := valid
      exact hi.rollOver he live
  | deposited owner amount principal entries =>
      exact quiet (fun _ => rfl) rfl rfl (write_slots fun _ => ⟨rfl, rfl, rfl⟩)
  | withdrawRequested owner amount pending pendingEpoch =>
      exact quiet (fun _ => rfl) rfl rfl (write_slots fun _ => ⟨rfl, rfl, rfl⟩)
  | withdrawn owner amount principal entries =>
      exact quiet (fun _ => rfl) rfl rfl (write_slots fun _ => ⟨rfl, rfl, rfl⟩)
  | emergencyWithdrawn owner principal pending total =>
      exact quiet (fun _ => rfl) rfl rfl (write_slots fun _ => ⟨rfl, rfl, rfl⟩)
  | ticketsBought owner epochId usdc tickets =>
      exact quiet (fun _ => rfl) rfl rfl (write_slots fun _ => ⟨rfl, rfl, rfl⟩)
  | ticketsGranted owner epochId amount byAdmin =>
      cases byAdmin with
      | true => exact quiet (fun _ => rfl) rfl rfl (write_slots fun _ => ⟨rfl, rfl, rfl⟩)
      | false => exact quiet (fun _ => rfl) rfl rfl (write_slots fun _ => ⟨rfl, rfl, rfl⟩)
  | positionBought roundId owner tiles stakePerTile total =>
      exact quiet (fun _ => rfl) rfl rfl (write_slots fun _ => ⟨rfl, rfl, rfl⟩)
  | roundSettled roundId winningTile pot forfeited houseCut =>
      exact quiet (fun _ => rfl) rfl rfl (write_slots fun _ => ⟨rfl, rfl, rfl⟩)
  | positionSettled roundId owner reward =>
      exact quiet (fun _ => rfl) rfl rfl (write_slots fun _ => ⟨rfl, rfl, rfl⟩)
  | yieldCredited epochId owner amount shortfall =>
      exact quiet (fun _ => rfl) rfl rfl (write_slots fun _ => ⟨rfl, rfl, rfl⟩)
  | featurePaused feature paused now =>
      cases feature with
      | game => exact quiet (fun _ => rfl) rfl rfl sameSlots_refl
      | jackpot => exact quiet (fun _ => rfl) rfl rfl sameSlots_refl
  | _ => exact quiet (fun _ => rfl) rfl rfl sameSlots_refl

end Told

/-- Every epoch's events tell one fair tale: it begins once, no owner registers twice, the slots
tile the line, and at most one draw and one ending follow, a payout going to the only owner whose
slot contains the target. -/
theorem epoch_events_tell {rt : Runtime} {w : World} (h : Reachable rt w) (id : Nat) :
    w.log.filter (Event.ofEpoch id) = [] ∨ ∃ tale : EpochTale, tale.Fair ∧
      w.log.filter (Event.ofEpoch id) = tale.events id := by
  have told := (reachable_balanced h).sound.invariant epochsTold_empty fun hi valid => hi.next valid
  cases he : (journaling.replay Journal.empty (journaling.log w)).epochs id with
  | none => exact .inl (told.untold he)
  | some epoch =>
      obtain ⟨tale, fair, -, events⟩ := told.told he
      exact .inr ⟨tale, fair, events⟩

/-- Two owners register for epoch 1, and the second one wins it. -/
theorem epoch_events_tell_paid : ∃ w, Reachable Demo.runtime w ∧
    (w.log.filter (Event.ofEpoch 1)).length = 5 ∧
    (w.log.filter (Event.ofEpoch 1) = [] ∨ ∃ tale : EpochTale, tale.Fair ∧
      w.log.filter (Event.ofEpoch 1) = tale.events 1) := by
  let player := Demo.signer 3
  let other := Demo.signer 4
  obtain ⟨⟨history, w⟩, hrun, hcheck⟩ := exists_of_any
    (x := Demo.script [.setFeaturePause Demo.admin .jackpot false,
      .deposit player (Demo.wallet player) 100, .deposit other (Demo.wallet other) 100,
      .beginEpoch Demo.operator, .wait 1100, .beginEpoch Demo.operator, .register 1 ⟨4⟩,
      .register 1 ⟨3⟩, .fundJackpot player (Demo.wallet player) 500,
      .closeRegistration Demo.operator 1 ⟨9⟩ (List.replicate 32 0),
      .draw 1 ⟨⟨9⟩, List.replicate 8 0 ++ [1] ++ List.replicate 128 0⟩, .payout 1 ⟨4⟩])
    (p := fun r => decide ((r.2.log.filter (Event.ofEpoch 1)).length = 5)) (by decide +kernel)
  have reachable := (Demo.script_run hrun).reachable
  exact ⟨w, reachable, of_decide_eq_true hcheck, epoch_events_tell reachable 1⟩

end HexVault
