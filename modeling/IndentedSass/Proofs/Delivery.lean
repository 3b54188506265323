import IndentedSass.Live.Hub
import Mathlib.Data.List.Induction
import Mathlib.Data.List.Perm.Basic

/-!
# What listening clients get

A broadcast goes through the subscribed clients one by one, in no fixed order, and holds the lock of
the hub meanwhile: nobody subscribes or unsubscribes and no other broadcast begins until it has
reached them all. Clients take messages whenever they like, also then. A `Floor` is the hub in this
grain, and a `Move` one thing that happens on it. A `Line` notes next to a client how often its
queue was closed, and what was sent when it was closed already, which must never happen.

However the moves of any number of clients mix (`Floor.run?`):

* a client that is still subscribed has got, or has waiting, exactly the messages that were
  broadcast since it subscribed; one that is not has got an initial part of them, up to the move
  that ended its subscription (`Floor.Kept`, `Floor.Ended`);
* no queue outgrows its depth, is closed twice, or is sent to when closed (`Line.Sound`);
* whenever no broadcast is under way the hub is as if every broadcast had reached all clients at
  once (`Floor.Serial`).
-/

namespace IndentedSass.Live

/-- One thing that happens: a client subscribes, its subscription is ended, a broadcast begins, the
broadcast under way reaches a client, or a client takes its oldest message. -/
inductive Move where
  | subscribe
  | unsubscribe (i : Nat)
  | broadcast (message : Text)
  | reach (i : Nat)
  | receive (i : Nat)
  deriving DecidableEq

namespace Move

/-- The message of a broadcast that begins. -/
def message? : Move → Option Text
  | broadcast message => some message
  | _ => none

/-- Whether the move is part of a broadcast that has begun. -/
def isReach : Move → Bool
  | reach _ => true
  | _ => false

/-- Whether a client takes a message. -/
def isReceive : Move → Bool
  | receive _ => true
  | _ => false

/-- The messages of the broadcasts since client `i` subscribed; clients are numbered in the order in
which they do. -/
def since (i : Nat) : List Move → List Text
  | [] => []
  | move :: moves =>
    if move = subscribe then
      if i = 0 then moves.filterMap message? else since (i - 1) moves
    else since i moves

theorem since_concat {i : Nat} {moves : List Move} (move : Move) (h : i < moves.count subscribe) :
    since i (moves ++ [move]) = since i moves ++ move.message?.toList := by
  induction moves generalizing i with
  | nil => cases h
  | cons first moves ih =>
    rw [List.cons_append, since, since]
    by_cases hfirst : first = subscribe
    · subst hfirst
      by_cases hi : i = 0
      · rw [if_pos rfl, if_pos rfl, if_pos hi, if_pos hi, List.filterMap_append]
        cases move <;> rfl
      · rw [if_pos rfl, if_pos rfl, if_neg hi, if_neg hi]
        rw [List.count_cons_self] at h
        exact ih (by omega)
    · rw [List.count_cons_of_ne hfirst] at h
      rw [if_neg hfirst, if_neg hfirst]
      exact ih h

/-- Nothing has been broadcast since the last client subscribed, when it just did. -/
theorem since_last (moves : List Move) :
    since (moves.count subscribe) (moves ++ [subscribe]) = [] := by
  induction moves with
  | nil => rfl
  | cons first moves ih =>
    rw [List.cons_append, since]
    by_cases hfirst : first = subscribe
    · subst hfirst
      rw [if_pos rfl, List.count_cons_self, if_neg (by omega)]
      exact ih
    · rw [if_neg hfirst, List.count_cons_of_ne hfirst]
      exact ih

end Move

/-! ## Lines -/

/-- A client with the history of its queue. -/
structure Line where
  client : Client
  /-- The messages that the client has taken, in order. -/
  taken : List Text
  /-- How often the queue was closed. -/
  closings : Nat
  /-- How many messages were sent when the queue was closed already. -/
  late : Nat
  deriving DecidableEq

namespace Line
variable {depth : Nat} {message : Text} {l : Line}

/-- The line of a client that has just subscribed. -/
def new : Line := ⟨.new, [], 0, 0⟩

/-- Ends a subscription and closes the queue, unless that has been done. -/
def drop (l : Line) : Line :=
  if l.client.isSubscribed then { l with client := l.client.close, closings := l.closings + 1 }
  else l

/-- Sends a message; a client that has no room for it is dropped. -/
def send (depth : Nat) (message : Text) (l : Line) : Line :=
  if l.closings ≠ 0 then { l with late := l.late + 1 }
  else if l.client.queue.length < depth then
    { l with client := { l.client with queue := l.client.queue ++ [message] } }
  else l.drop

/-- The client takes its oldest message, if there is one. -/
def receive (l : Line) : Line :=
  { l with client := l.client.take.2, taken := l.taken ++ l.client.take.1.toList }

/-- All messages that the client has got or can still take, in order. -/
def got (l : Line) : List Text := l.taken ++ l.client.queue

/-- A queue is within its depth. It was closed once if the client is no longer subscribed and never
otherwise, and nothing was sent to it after that. -/
structure Sound (depth : Nat) (l : Line) : Prop where
  room : l.client.queue.length ≤ depth
  closings : l.closings = if l.client.isSubscribed then 0 else 1
  late : l.late = 0

theorem sound_new (depth : Nat) : Sound depth new where
  room := Nat.zero_le depth
  closings := rfl
  late := rfl

theorem client_drop (l : Line) : l.drop.client = l.client.close := by
  obtain ⟨⟨queue, isSubscribed⟩, taken, closings, late⟩ := l
  cases isSubscribed <;> rfl

@[simp] theorem got_drop (l : Line) : l.drop.got = l.got := by
  rw [drop]
  split <;> rfl

theorem Sound.drop (h : Sound depth l) : Sound depth l.drop := by
  obtain ⟨hroom, hclosings, hlate⟩ := h
  rw [Line.drop]
  split
  · rename_i hsubscribed
    rw [if_pos hsubscribed] at hclosings
    exact ⟨hroom, congrArg (· + 1) hclosings, hlate⟩
  · exact ⟨hroom, hclosings, hlate⟩

/-- Sending to a subscribed client finds its queue open. -/
theorem Sound.send_eq (h : Sound depth l) (hl : l.client.isSubscribed = true) :
    l.send depth message = if l.client.queue.length < depth then
      { l with client := { l.client with queue := l.client.queue ++ [message] } } else l.drop := by
  have hopen : l.closings = 0 := by rw [h.closings, if_pos hl]
  rw [send, if_neg (by omega)]

theorem Sound.send (h : Sound depth l) (hl : l.client.isSubscribed = true) :
    Sound depth (l.send depth message) := by
  rw [h.send_eq hl]
  split
  · rename_i hroom
    refine ⟨?_, h.closings, h.late⟩
    show (l.client.queue ++ [message]).length ≤ depth
    rw [List.length_append]
    exact hroom
  · exact h.drop

/-- Sending does to a client what the hub does when it offers a message. -/
theorem Sound.client_send (h : Sound depth l) (hl : l.client.isSubscribed = true) :
    (l.send depth message).client = l.client.offer depth message := by
  rw [h.send_eq hl, Client.offer]
  by_cases hroom : l.client.queue.length < depth
  · simp [hroom, hl]
  · simp [hroom, hl, client_drop]

theorem Sound.receive (h : Sound depth l) : Sound depth l.receive := by
  obtain ⟨⟨_ | ⟨message, queue⟩, isSubscribed⟩, taken, closings, late⟩ := l
  · exact ⟨h.room, h.closings, h.late⟩
  · exact ⟨Nat.le_of_succ_le h.room, h.closings, h.late⟩

@[simp] theorem isSubscribed_receive (l : Line) :
    l.receive.client.isSubscribed = l.client.isSubscribed := by
  obtain ⟨⟨_ | ⟨message, queue⟩, isSubscribed⟩, taken, closings, late⟩ := l <;> rfl

/-- Taking a message changes only which part of the messages is still waiting. -/
@[simp] theorem got_receive (l : Line) : l.receive.got = l.got := by
  obtain ⟨⟨_ | ⟨message, queue⟩, isSubscribed⟩, taken, closings, late⟩ := l
  · show (taken ++ []) ++ [] = taken ++ []
    rw [List.append_nil, List.append_nil]
  · show (taken ++ [message]) ++ queue = taken ++ message :: queue
    rw [List.append_assoc]
    rfl

end Line

/-! ## Floors -/

/-- The clients with their lines, and the broadcast under way: its message, and the clients that it
has still to reach. There is none under way if these are none. -/
structure Floor where
  depth : Nat
  lines : List Line
  message : Text
  pending : List Nat
  deriving DecidableEq

namespace Floor
variable {start f g : Floor} {move : Move} {moves : List Move} {i j : Nat} {l : Line}

/-- A floor without clients. -/
def new (depth : Int) : Floor := ⟨(Hub.new depth).depth, [], [], []⟩

/-- What the hub knows of a floor. -/
def hub (f : Floor) : Hub := ⟨f.depth, f.lines.map Line.client⟩

/-- The numbers of the subscribed clients. -/
def members (f : Floor) : List Nat :=
  (List.range f.lines.length).filter fun i => f.lines[i]?.any fun l => l.client.isSubscribed

/-- Whether a move is possible: while a broadcast is under way nobody can subscribe or unsubscribe,
and no other broadcast can begin. -/
def allows (f : Floor) : Move → Bool
  | .subscribe | .broadcast _ => f.pending = []
  | .unsubscribe i => f.pending = [] ∧ i < f.lines.length
  | .reach i => i ∈ f.pending
  | .receive i => i < f.lines.length

/-- What a move makes of a floor. -/
def after (f : Floor) : Move → Floor
  | .subscribe => { f with lines := f.lines ++ [.new] }
  | .unsubscribe i => { f with lines := f.lines.modify i Line.drop }
  | .broadcast message => { f with message, pending := f.members }
  | .reach i =>
    { f with
      lines := f.lines.modify i (Line.send f.depth f.message), pending := f.pending.erase i }
  | .receive i => { f with lines := f.lines.modify i Line.receive }

/-- A move, if it is possible. -/
def step? (f : Floor) (move : Move) : Option Floor :=
  if f.allows move then some (f.after move) else none

/-- A number of moves, if they are possible one after the other. -/
def run? (f : Floor) (moves : List Move) : Option Floor := moves.foldlM step? f

theorem step?_eq_some : f.step? move = some g ↔ f.allows move = true ∧ f.after move = g := by
  rw [step?]
  split
  · simp [*]
  · simp [*]

theorem run?_append (f : Floor) (moves moves' : List Move) :
    f.run? (moves ++ moves') = (f.run? moves).bind fun g => g.run? moves' :=
  List.foldlM_append

theorem run?_concat (f : Floor) (moves : List Move) (move : Move) :
    f.run? (moves ++ [move]) = (f.run? moves).bind fun g => g.step? move := by
  rw [run?_append]
  congr 1
  funext g
  rw [run?, List.foldlM_cons]
  cases g.step? move <;> rfl

/-- Whatever the start has and every possible move keeps, every run keeps. The property may speak of
the moves that were made. -/
theorem run?_induction {P : List Move → Floor → Prop} (hstart : P [] start)
    (hstep : ∀ moves f move, start.run? moves = some f → P moves f → f.allows move = true →
      P (moves ++ [move]) (f.after move)) :
    ∀ moves f, start.run? moves = some f → P moves f := by
  intro moves
  induction moves using List.reverseRecOn with
  | nil =>
    rintro f ⟨⟩
    exact hstart
  | append_singleton moves move ih =>
    intro g hrun
    rw [run?_concat] at hrun
    obtain ⟨f, hf, hstep'⟩ := Option.bind_eq_some_iff.mp hrun
    obtain ⟨hallowed, rfl⟩ := step?_eq_some.mp hstep'
    exact hstep moves f move hf (ih f hf) hallowed

theorem mem_members :
    i ∈ f.members ↔ ∃ l, f.lines[i]? = some l ∧ l.client.isSubscribed = true := by
  rw [members, List.mem_filter, List.mem_range]
  constructor
  · rintro ⟨hi, h⟩
    rw [List.getElem?_eq_getElem hi] at h ⊢
    exact ⟨_, rfl, h⟩
  · rintro ⟨l, hl, h⟩
    rw [hl]
    exact ⟨(List.getElem?_eq_some_iff.mp hl).1, h⟩

/-! ### What a move does to a line -/

/-- What a move does to the line of client `j`. -/
def effect (f : Floor) (j : Nat) : Move → Line → Line
  | .unsubscribe i, l => if i = j then l.drop else l
  | .reach i, l => if i = j then l.send f.depth f.message else l
  | .receive i, l => if i = j then l.receive else l
  | _, l => l

@[simp] theorem depth_after (f : Floor) (move : Move) : (f.after move).depth = f.depth := by
  cases move <;> rfl

theorem length_after (f : Floor) (move : Move) :
    (f.after move).lines.length = f.lines.length + [move].count .subscribe := by
  cases move <;> simp [after]

/-- The line of a client that was there before. -/
theorem line_after (move : Move) (hl : f.lines[j]? = some l) :
    (f.after move).lines[j]? = some (f.effect j move l) := by
  have hmodify (i : Nat) (t : Line → Line) :
      (f.lines.modify i t)[j]? = some (if i = j then t l else l) := by
    rw [List.getElem?_modify, hl]
    split <;> rfl
  cases move with
  | subscribe =>
    show (f.lines ++ [.new])[j]? = some l
    rw [List.getElem?_append_left (List.getElem?_eq_some_iff.mp hl).1, hl]
  | unsubscribe i => exact hmodify i _
  | broadcast message => exact hl
  | reach i => exact hmodify i _
  | receive i => exact hmodify i _

/-- A line is what the move has made of it, or that of a client that has just subscribed. -/
theorem line_cases (hl : (f.after move).lines[j]? = some l) :
    (∃ l₀, f.lines[j]? = some l₀ ∧ f.effect j move l₀ = l) ∨
      move = .subscribe ∧ j = f.lines.length ∧ l = .new := by
  cases hj : f.lines[j]? with
  | some l₀ =>
    rw [line_after move hj] at hl
    exact .inl ⟨l₀, rfl, Option.some.inj hl⟩
  | none =>
    have hout := List.getElem?_eq_none_iff.mp hj
    have hin := (List.getElem?_eq_some_iff.mp hl).1
    rw [length_after] at hin
    have hsubscribe : move = .subscribe := by
      by_contra hne
      rw [List.count_singleton, if_neg (by simpa using hne)] at hin
      omega
    subst hsubscribe
    have hlast : j = f.lines.length := by
      rw [List.count_singleton_self] at hin
      omega
    subst hlast
    refine .inr ⟨rfl, rfl, ?_⟩
    simpa [after] using hl.symm

/-! ### Sound floors -/

/-- All lines are sound, and the broadcast under way has still to reach some subscribed clients,
each once. -/
structure Sound (f : Floor) : Prop where
  line : ∀ (i : Nat) (l : Line), f.lines[i]? = some l → l.Sound f.depth
  pending : ∀ i ∈ f.pending, i ∈ f.members
  once : f.pending.Nodup

theorem sound_new (depth : Int) : (new depth).Sound where
  line _ _ h := by cases h
  pending _ h := by cases h
  once := List.nodup_nil

theorem Sound.isSubscribed (h : f.Sound) (hi : i ∈ f.pending) (hl : f.lines[i]? = some l) :
    l.client.isSubscribed = true := by
  obtain ⟨l', hl', hsubscribed⟩ := mem_members.mp (h.pending i hi)
  rw [hl] at hl'
  cases hl'
  exact hsubscribed

/-- **What a move does to a client.** It leaves it what it has got and whether it is subscribed, or
a broadcast reaches it and finds room, or its subscription ends: at its own wish, or because a
broadcast finds its queue full. -/
theorem Sound.effect_cases (h : f.Sound) (hallowed : f.allows move = true)
    (hl : f.lines[i]? = some l) :
    (move ≠ .reach i ∧ (f.effect i move l).got = l.got ∧
      (f.effect i move l).client.isSubscribed = l.client.isSubscribed) ∨
    (move = .reach i ∧ (f.effect i move l).got = l.got ++ [f.message] ∧
      l.client.isSubscribed = true ∧ (f.effect i move l).client.isSubscribed = true) ∨
    ((move = .unsubscribe i ∨ move = .reach i ∧ l.client.queue.length = f.depth) ∧
      (f.effect i move l).got = l.got ∧
      l.client.isSubscribed = true ∧ (f.effect i move l).client.isSubscribed = false) := by
  cases move with
  | subscribe => exact .inl ⟨by simp, rfl, rfl⟩
  | broadcast message => exact .inl ⟨by simp, rfl, rfl⟩
  | receive j =>
    refine .inl ⟨by simp, ?_, ?_⟩ <;> rw [Floor.effect] <;> split <;> simp
  | unsubscribe j =>
    rw [Floor.effect]
    by_cases hji : j = i
    · subst hji
      rw [if_pos rfl]
      cases hsubscribed : l.client.isSubscribed with
      | true => exact .inr (.inr ⟨.inl rfl, l.got_drop, rfl, congrArg _ l.client_drop⟩)
      | false => exact .inl ⟨by simp, l.got_drop, congrArg _ l.client_drop⟩
    · rw [if_neg hji]
      exact .inl ⟨by simp, rfl, rfl⟩
  | reach j =>
    rw [Floor.effect]
    by_cases hji : j = i
    · subst hji
      have hsubscribed := h.isSubscribed (by simpa [allows] using hallowed) hl
      have hline := h.line j l hl
      rw [if_pos rfl, hline.send_eq hsubscribed]
      by_cases hroom : l.client.queue.length < f.depth
      · rw [if_pos hroom]
        exact .inr (.inl ⟨rfl, (List.append_assoc _ _ _).symm, hsubscribed, hsubscribed⟩)
      · rw [if_neg hroom]
        have hfull : l.client.queue.length = f.depth := by
          have := hline.room
          omega
        exact .inr (.inr ⟨.inr ⟨rfl, hfull⟩, l.got_drop, hsubscribed, congrArg _ l.client_drop⟩)
    · rw [if_neg hji]
      exact .inl ⟨by simpa using hji, rfl, rfl⟩

/-- A move keeps a line sound: a broadcast sends only to clients that are subscribed. -/
theorem Sound.effect (h : f.Sound) (hallowed : f.allows move = true) (hl : f.lines[j]? = some l) :
    (f.effect j move l).Sound f.depth := by
  have hline := h.line j l hl
  cases move with
  | subscribe => exact hline
  | broadcast message => exact hline
  | unsubscribe i =>
    rw [Floor.effect]
    split
    · exact hline.drop
    · exact hline
  | receive i =>
    rw [Floor.effect]
    split
    · exact hline.receive
    · exact hline
  | reach i =>
    rw [Floor.effect]
    split
    · rename_i hij
      subst hij
      have hpending : i ∈ f.pending := by simpa [allows] using hallowed
      exact hline.send (h.isSubscribed hpending hl)
    · exact hline

/-- A client stays subscribed if the move does not end its subscription. -/
theorem mem_members_after (hj : j ∈ f.members)
    (hkeep : ∀ l, (f.effect j move l).client.isSubscribed = l.client.isSubscribed) :
    j ∈ (f.after move).members := by
  obtain ⟨l, hl, hsubscribed⟩ := mem_members.mp hj
  exact mem_members.mpr ⟨_, line_after move hl, (hkeep l).trans hsubscribed⟩

theorem Sound.after (h : f.Sound) (hallowed : f.allows move = true) : (f.after move).Sound := by
  have hline : ∀ (i : Nat) (l : Line), (f.after move).lines[i]? = some l →
      l.Sound (f.after move).depth := by
    intro i l hl
    rw [depth_after]
    rcases line_cases hl with ⟨l₀, hl₀, rfl⟩ | ⟨-, -, rfl⟩
    · exact h.effect hallowed hl₀
    · exact Line.sound_new f.depth
  -- with no broadcast under way the clients still to be reached are no concern
  have hidle (hpending : f.pending = []) (hsame : (f.after move).pending = f.pending) :
      (f.after move).Sound := by
    refine ⟨hline, fun i hi => ?_, ?_⟩
    · rw [hsame, hpending] at hi
      cases hi
    · rw [hsame, hpending]
      exact List.nodup_nil
  cases move with
  | subscribe => exact hidle (by simpa [allows] using hallowed) rfl
  | unsubscribe i =>
    have hboth : f.pending = [] ∧ i < f.lines.length := by simpa [allows] using hallowed
    exact hidle hboth.1 rfl
  | broadcast message => exact ⟨hline, fun i hi => hi, List.nodup_range.filter _⟩
  | reach i =>
    refine ⟨hline, fun j hj => ?_, h.once.erase i⟩
    obtain ⟨hne, hpending⟩ := (List.Nodup.mem_erase_iff h.once).mp hj
    refine mem_members_after (h.pending j hpending) fun l => ?_
    rw [Floor.effect, if_neg (Ne.symm hne)]
  | receive i =>
    refine ⟨hline, fun j hj => mem_members_after (h.pending j hj) fun l => ?_, h.once⟩
    rw [Floor.effect]
    split
    · exact l.isSubscribed_receive
    · rfl

/-! ### Subscriptions that have ended -/

/-- A subscription that has ended does not come back. -/
theorem mem_members_of_after (hsound : f.Sound) (hallowed : f.allows move = true)
    (hi : i < f.lines.length) (hafter : i ∈ (f.after move).members) : i ∈ f.members := by
  obtain ⟨l, hl⟩ : ∃ l, f.lines[i]? = some l := ⟨_, List.getElem?_eq_getElem hi⟩
  obtain ⟨l', hl', hsubscribed⟩ := mem_members.mp hafter
  rw [line_after move hl] at hl'
  cases hl'
  refine mem_members.mpr ⟨l, hl, ?_⟩
  rcases hsound.effect_cases hallowed hl with ⟨-, -, hsame⟩ | ⟨-, -, hbefore, -⟩ | ⟨-, -, -, hended⟩
  · exact hsame ▸ hsubscribed
  · exact hbefore
  · rw [hended] at hsubscribed
    cases hsubscribed

theorem sound_run (hstart : start.Sound) (hrun : start.run? moves = some f) : f.Sound :=
  @run?_induction start (fun _ => Sound) hstart (fun _ _ _ _ h hallowed => h.after hallowed)
    moves f hrun

/-- A client that is subscribed has been all the time since it came. -/
theorem mem_members_of_run (hstart : start.Sound) :
    ∀ moves f, start.run? moves = some f → start.lines.length ≤ f.lines.length ∧
      ∀ i < start.lines.length, i ∈ f.members → i ∈ start.members := by
  refine run?_induction ⟨Nat.le_refl _, fun _ _ hi => hi⟩ ?_
  rintro moves f move hrun ⟨hlength, hback⟩ hallowed
  refine ⟨?_, fun i hi hafter => ?_⟩
  · rw [length_after]
    omega
  · have hsound := sound_run hstart hrun
    exact hback i hi (mem_members_of_after hsound hallowed (by omega) hafter)

/-! ### What a client has got -/

/-- The message that the broadcast under way still owes client `i`. -/
def owed (f : Floor) (i : Nat) : List Text := if i ∈ f.pending then [f.message] else []

/-- The subscription of client `i` has ended in a run from `start`, and it has got the given
messages: until some move it was subscribed all the time, and that move ended the subscription.
Either that move was made for it, and it has got all messages up to then; or a broadcast found its
queue full, and it has got all messages but that of this broadcast. -/
def Ended (start : Floor) (i : Nat) (moves : List Move) (got : List Text) : Prop :=
  ∃ before move rest f l, moves = before ++ move :: rest ∧
    start.run? before = some f ∧ f.lines[i]? = some l ∧
    (∀ earlier later h, before = earlier ++ later → start.run? earlier = some h →
      i < h.lines.length → i ∈ h.members) ∧
    (move = .unsubscribe i ∧ got = Move.since i before ∨
      move = .reach i ∧ l.client.queue.length = f.depth ∧
        got ++ [f.message] = Move.since i before)

theorem Ended.concat {got : List Text} (h : Ended start i moves got) (move : Move) :
    Ended start i (moves ++ [move]) got := by
  obtain ⟨before, last, rest, f, l, rfl, h⟩ := h
  exact ⟨before, last, rest ++ [move], f, l, by simp, h⟩

/-- What every client has got in a run. -/
structure Kept (start : Floor) (moves : List Move) (f : Floor) : Prop where
  sound : f.Sound
  count : f.lines.length = moves.count .subscribe
  subscribed : ∀ (i : Nat) (l : Line), f.lines[i]? = some l → l.client.isSubscribed = true →
    l.got ++ f.owed i = Move.since i moves
  ended : ∀ (i : Nat) (l : Line), f.lines[i]? = some l → l.client.isSubscribed = false →
    Ended start i moves l.got

theorem owed_eq_nil (h : f.pending = []) (i : Nat) : f.owed i = [] := by
  rw [owed, h, if_neg (List.not_mem_nil)]

/-- A broadcast that begins owes its message to all subscribed clients. -/
theorem owed_after (hallowed : f.allows move = true) (hmove : move ≠ .reach i)
    (hi : i ∈ f.members) : (f.after move).owed i = f.owed i ++ move.message?.toList := by
  cases move with
  | subscribe => exact (List.append_nil _).symm
  | unsubscribe j => exact (List.append_nil _).symm
  | receive j => exact (List.append_nil _).symm
  | broadcast message =>
    have hidle : f.pending = [] := by simpa [allows] using hallowed
    rw [owed_eq_nil hidle i]
    exact if_pos hi
  | reach j =>
    have hne : i ≠ j := fun h => hmove (h ▸ rfl)
    show (if i ∈ f.pending.erase j then [f.message] else []) = f.owed i ++ []
    simp only [List.append_nil, owed, List.mem_erase_of_ne hne]

theorem Sound.owed_reach (h : f.Sound) (hallowed : f.allows (.reach i) = true) :
    f.owed i = [f.message] ∧ (f.after (.reach i)).owed i = [] := by
  have hpending : i ∈ f.pending := by simpa [allows] using hallowed
  exact ⟨if_pos hpending, if_neg h.once.not_mem_erase⟩

theorem kept_start (depth : Int) : Kept (new depth) [] (new depth) where
  sound := sound_new depth
  count := rfl
  subscribed _ _ h := by cases h
  ended _ _ h := by cases h

/-- A client that is subscribed after a move has got, or is owed, one message more if the move began
a broadcast. -/
theorem Kept.got_after (h : Kept start moves f) (hallowed : f.allows move = true)
    (hl : f.lines[i]? = some l) (hafter : (f.effect i move l).client.isSubscribed = true) :
    (f.effect i move l).got ++ (f.after move).owed i = Move.since i (moves ++ [move]) := by
  have hi : i < moves.count .subscribe := h.count ▸ (List.getElem?_eq_some_iff.mp hl).1
  rw [Move.since_concat move hi]
  rcases h.sound.effect_cases hallowed hl with ⟨hmove, hgot, hsame⟩ | ⟨rfl, hgot, hbefore, -⟩ |
    ⟨-, -, -, hended⟩
  · rw [hsame] at hafter
    rw [hgot, owed_after hallowed hmove (mem_members.mpr ⟨l, hl, hafter⟩), ← List.append_assoc,
      h.subscribed i l hl hafter]
  · obtain ⟨howed, hpaid⟩ := h.sound.owed_reach hallowed
    rw [hgot, hpaid, ← h.subscribed i l hl hbefore, howed]
    rfl
  · rw [hended] at hafter
    cases hafter

/-- A client that is not subscribed after a move has got nothing more by it. -/
theorem Kept.ended_after (hstart : start.Sound) (hrun : start.run? moves = some f)
    (h : Kept start moves f) (hallowed : f.allows move = true) (hl : f.lines[i]? = some l)
    (hafter : (f.effect i move l).client.isSubscribed = false) :
    Ended start i (moves ++ [move]) (f.effect i move l).got := by
  rcases h.sound.effect_cases hallowed hl with ⟨-, hgot, hsame⟩ | ⟨-, -, -, hstays⟩ |
    ⟨hmove, hgot, hbefore, -⟩
  · rw [hsame] at hafter
    rw [hgot]
    exact (h.ended i l hl hafter).concat move
  · rw [hstays] at hafter
    cases hafter
  · -- the subscription ends here: up to now it was never interrupted
    have hmember : i ∈ f.members := mem_members.mpr ⟨l, hl, hbefore⟩
    rw [hgot]
    refine ⟨moves, move, [], f, l, rfl, hrun, hl, ?_, ?_⟩
    · rintro earlier later g rfl hearlier hi
      rw [run?_append, hearlier] at hrun
      exact (mem_members_of_run (sound_run hstart hearlier) later f hrun).2 i hi hmember
    · rw [← h.subscribed i l hl hbefore]
      rcases hmove with rfl | ⟨rfl, hfull⟩
      · have hidle : f.pending = [] ∧ i < f.lines.length := by simpa [allows] using hallowed
        rw [owed_eq_nil hidle.1, List.append_nil]
        exact .inl ⟨rfl, rfl⟩
      · rw [(h.sound.owed_reach hallowed).1]
        exact .inr ⟨rfl, hfull, rfl⟩

theorem Kept.after (hstart : start.Sound) (hrun : start.run? moves = some f)
    (h : Kept start moves f) (hallowed : f.allows move = true) :
    Kept start (moves ++ [move]) (f.after move) where
  sound := h.sound.after hallowed
  count := by rw [length_after, h.count, List.count_append]
  subscribed i l hl hsubscribed := by
    rcases line_cases hl with ⟨l₀, hl₀, rfl⟩ | ⟨rfl, rfl, rfl⟩
    · exact h.got_after hallowed hl₀ hsubscribed
    · rw [h.count, Move.since_last, owed_eq_nil (by simpa [allows, Floor.after] using hallowed)]
      rfl
  ended i l hl hended := by
    rcases line_cases hl with ⟨l₀, hl₀, rfl⟩ | ⟨-, -, rfl⟩
    · exact h.ended_after hstart hrun hallowed hl₀ hended
    · cases hended

/-- **What every client has got in any run.** -/
theorem kept_run (depth : Int) (hrun : (new depth).run? moves = some f) :
    Kept (new depth) moves f :=
  run?_induction (kept_start depth)
    (fun _ _ _ hrun h hallowed => h.after (sound_new depth) hrun hallowed) moves f hrun

/-- A client can take all that waits for it, whatever else is going on. -/
theorem run?_receive (queue : List Text) (hl : f.lines[i]? = some l)
    (hqueue : l.client.queue = queue) :
    ∃ g, f.run? (List.replicate queue.length (.receive i)) = some g ∧
      g.lines[i]? = some { l with client := { l.client with queue := [] }, taken := l.got } := by
  induction queue generalizing f l with
  | nil =>
    refine ⟨f, rfl, hl.trans ?_⟩
    obtain ⟨⟨queue, isSubscribed⟩, taken, closings, late⟩ := l
    cases hqueue
    simp [Line.got]
  | cons message queue ih =>
    have hallowed : f.allows (.receive i) = true := by
      simpa [allows] using (List.getElem?_eq_some_iff.mp hl).1
    have hnext := line_after (.receive i) hl
    rw [effect, if_pos rfl] at hnext
    have hrest : l.receive.client.queue = queue := by rw [Line.receive, Client.take, hqueue]
    obtain ⟨g, hg, hgl⟩ := ih hnext hrest
    refine ⟨g, ?_, ?_⟩
    · rw [List.length_cons, List.replicate_succ, run?, List.foldlM_cons, step?, if_pos hallowed]
      exact hg
    · rw [hgl, l.got_receive]
      simp [Line.receive, Client.take, hqueue]

end Floor

/-! ## Broadcasts in one go -/

/-- What a move does to a client of number `i`, if every broadcast is made in one go. -/
def Client.respond (depth i : Nat) (c : Client) : Move → Client
  | .unsubscribe j => if j = i then c.close else c
  | .broadcast message => c.offer depth message
  | .receive j => if j = i then c.take.2 else c
  | _ => c

namespace Hub
variable {h : Hub} {moves : List Move} {i j : Nat}

/-- What a move does to a hub, if every broadcast is made in one go. -/
def perform (h : Hub) : Move → Hub
  | .subscribe => h.subscribe.2
  | .unsubscribe i => h.unsubscribe i
  | .broadcast message => h.broadcast message
  | .reach _ => h
  | .receive i => (h.receive i).2

/-- What a number of moves do to a hub. -/
def performAll (h : Hub) (moves : List Move) : Hub := moves.foldl perform h

@[simp] theorem performAll_append (h : Hub) (moves moves' : List Move) :
    h.performAll (moves ++ moves') = (h.performAll moves).performAll moves' :=
  List.foldl_append

theorem depth_receive (h : Hub) (i : Nat) : (h.receive i).2.depth = h.depth := by
  rw [receive]
  split <;> rfl

theorem depth_perform (h : Hub) (move : Move) : (h.perform move).depth = h.depth := by
  cases move with
  | receive i => exact h.depth_receive i
  | _ => rfl

theorem depth_performAll (h : Hub) (moves : List Move) : (h.performAll moves).depth = h.depth := by
  induction moves generalizing h with
  | nil => rfl
  | cons move moves ih => exact (ih (h.perform move)).trans (h.depth_perform move)

theorem client_receive (h : Hub) (i j : Nat) :
    (h.receive j).2.clients[i]? = h.clients[i]?.map fun c => if j = i then c.take.2 else c := by
  rw [receive]
  by_cases hji : j = i
  · subst hji
    cases hc : h.clients[j]? with
    | none => exact hc
    | some c =>
      have hj := (List.getElem?_eq_some_iff.mp hc).1
      simp [hj]
  · cases hc : h.clients[j]? with
    | none => simp [hji]
    | some c => simp [hji]

theorem client_perform {move : Move} (hmove : move ≠ .subscribe) (h : Hub) (i : Nat) :
    (h.perform move).clients[i]? = h.clients[i]?.map fun c => c.respond h.depth i move := by
  cases move with
  | subscribe => exact absurd rfl hmove
  | unsubscribe j =>
    show (h.clients.modify j Client.close)[i]? = _
    rw [List.getElem?_modify]
    cases h.clients[i]? with
    | none => rfl
    | some c =>
      simp only [Option.map_some, Client.respond]
      split <;> rfl
  | broadcast message => exact List.getElem?_map
  | reach j => exact Option.map_id'.symm
  | receive j => exact h.client_receive i j

/-- Without new clients every client is on its own. -/
theorem client_performAll (hmoves : .subscribe ∉ moves) (h : Hub) (i : Nat) :
    (h.performAll moves).clients[i]? =
      h.clients[i]?.map fun c => moves.foldl (Client.respond h.depth i) c := by
  induction moves generalizing h with
  | nil => exact Option.map_id'.symm
  | cons move moves ih =>
    rw [List.mem_cons, not_or] at hmoves
    show ((h.perform move).performAll moves).clients[i]? = _
    rw [ih hmoves.2, client_perform (Ne.symm hmoves.1), Option.map_map, depth_perform]
    rfl

/-- Others may take messages as they like. -/
theorem respond_receives {receivers : List Nat} (hi : i ∉ receivers) (depth : Nat) (c : Client) :
    (receivers.map Move.receive).foldl (Client.respond depth i) c = c := by
  induction receivers with
  | nil => rfl
  | cons j receivers ih =>
    rw [List.mem_cons, not_or] at hi
    have hj : c.respond depth i (.receive j) = c := if_neg (Ne.symm hi.1)
    rw [List.map_cons, List.foldl_cons, hj]
    exact ih hi.2

end Hub

/-- `serial` consists of the moves without the steps of broadcasts, and has all but the receipts of
messages in the same order. -/
structure Orders (serial moves : List Move) : Prop where
  perm : serial.Perm (moves.filter fun move => !move.isReach)
  order : serial.filter (fun move => !move.isReceive) =
    moves.filter fun move => !move.isReceive && !move.isReach

namespace Orders
variable {serial pre rest moves : List Move} {move : Move}

theorem concat (h : Orders serial moves) (hmove : move.isReach = false) :
    Orders (serial ++ [move]) (moves ++ [move]) := by
  refine ⟨?_, ?_⟩
  · rw [List.filter_append, List.filter_cons_of_pos (by simp [hmove])]
    exact h.perm.append_right _
  · rw [List.filter_append, List.filter_append, h.order]
    simp [List.filter_cons, hmove]

theorem reach (h : Orders serial moves) (i : Nat) : Orders serial (moves ++ [.reach i]) := by
  refine ⟨?_, ?_⟩
  · simpa [Move.isReach] using h.perm
  · simpa [Move.isReach] using h.order

/-- When a client takes a message does not matter for the order of the other moves. -/
theorem receive (h : Orders (pre ++ rest) moves) (i : Nat) :
    Orders (pre ++ [.receive i] ++ rest) (moves ++ [.receive i]) := by
  obtain ⟨hperm, horder⟩ := @concat (pre ++ rest) moves (.receive i) h rfl
  refine ⟨?_, ?_⟩
  · refine List.Perm.trans ?_ hperm
    simp only [List.append_assoc]
    exact List.perm_append_comm.append_left pre
  · rw [← horder]
    simp [Move.isReceive]

end Orders

namespace Floor
variable {f : Floor} {move : Move} {moves pre rest : List Move} {i j : Nat} {l : Line}

theorem client_hub (f : Floor) (i : Nat) : f.hub.clients[i]? = f.lines[i]?.map Line.client :=
  List.getElem?_map

theorem client_after (hmove : move ≠ .subscribe) (f : Floor) (i : Nat) :
    (f.after move).hub.clients[i]? = f.lines[i]?.map fun l => (f.effect i move l).client := by
  rw [client_hub]
  cases hl : f.lines[i]? with
  | some l =>
    rw [line_after move hl]
    rfl
  | none =>
    have hlength := f.length_after move
    rw [List.count_singleton, if_neg (by simpa using hmove)] at hlength
    rw [List.getElem?_eq_none (hlength ▸ List.getElem?_eq_none_iff.mp hl)]
    rfl

/-- The moves that have been made can be put in an order in which every broadcast is made in one go.
The clients that the broadcast under way has not reached are where they are before it, the others
where they are after it. -/
structure Serial (start : Hub) (moves : List Move) (f : Floor) (pre rest : List Move) : Prop where
  orders : Orders (pre ++ rest) moves
  depth : f.depth = start.depth
  early : ∀ i ∈ f.pending, f.hub.clients[i]? = (start.performAll pre).clients[i]?
  whole : ∀ i ∉ f.pending, f.hub.clients[i]? = (start.performAll (pre ++ rest)).clients[i]?
  underway : f.pending ≠ [] → ∃ receivers : List Nat,
    rest = .broadcast f.message :: receivers.map .receive ∧ ∀ r ∈ receivers, r ∉ f.pending

variable {start : Hub}

/-- With no broadcast under way, the hub is as if each had been made in one go. -/
theorem Serial.hub_eq (h : Serial start moves f pre rest) (hidle : f.pending = []) :
    f.hub = start.performAll (pre ++ rest) := by
  have hdepth : f.hub.depth = (start.performAll (pre ++ rest)).depth := by
    rw [Hub.depth_performAll]
    exact h.depth
  have hclients : f.hub.clients = (start.performAll (pre ++ rest)).clients :=
    List.ext_getElem? fun i => h.whole i (by rw [hidle]; exact List.not_mem_nil)
  rcases hhub : f.hub with ⟨depth, clients⟩
  rcases hall : start.performAll (pre ++ rest) with ⟨depth', clients'⟩
  rw [hhub, hall] at hdepth hclients
  exact congr (congrArg Hub.mk hdepth) hclients

/-- With no broadcast under way before and after a move that the hub makes as well. -/
theorem Serial.idle (h : Serial start moves f pre rest) (hidle : f.pending = [])
    (hsame : (f.after move).pending = f.pending) (hmove : move.isReach = false)
    (hhub : (f.after move).hub = f.hub.perform move) :
    Serial start (moves ++ [move]) (f.after move) (pre ++ rest ++ [move]) [] where
  orders := by
    rw [List.append_nil]
    exact h.orders.concat hmove
  depth := (f.depth_after move).trans h.depth
  early i hi := by
    rw [hsame, hidle] at hi
    cases hi
  whole i _ := by
    rw [hhub, h.hub_eq hidle, List.append_nil, Hub.performAll_append start (pre ++ rest)]
    rfl
  underway hbusy := absurd (hsame.trans hidle) hbusy

theorem hub_unsubscribe (f : Floor) (i : Nat) :
    (f.after (.unsubscribe i)).hub = f.hub.perform (.unsubscribe i) := by
  refine congrArg (Hub.mk f.depth) (List.ext_getElem? fun j => ?_)
  have hmove : Move.unsubscribe i ≠ .subscribe := by simp
  refine (client_after hmove f j).trans (Eq.trans ?_ (Hub.client_perform hmove f.hub j).symm)
  rw [client_hub, Option.map_map]
  congr 1
  funext l
  show (if i = j then l.drop else l).client = if i = j then l.client.close else l.client
  split
  · exact l.client_drop
  · rfl

/-- A broadcast that begins has changed nothing yet, and changes nothing for clients that are not
subscribed. -/
theorem Serial.broadcast (h : Serial start moves f pre rest) (hidle : f.pending = [])
    (message : Text) :
    Serial start (moves ++ [.broadcast message]) (f.after (.broadcast message)) (pre ++ rest)
      [.broadcast message] where
  orders := h.orders.concat rfl
  depth := h.depth
  early i _ := by
    rw [← h.hub_eq hidle]
    rfl
  whole i hi := by
    have hquiet : ∀ l, f.lines[i]? = some l → l.client.isSubscribed = false := by
      intro l hl
      by_contra hsubscribed
      exact hi (mem_members.mpr ⟨l, hl, by simpa using hsubscribed⟩)
    rw [Hub.performAll_append, ← h.hub_eq hidle]
    show f.hub.clients[i]? = (f.hub.perform (.broadcast message)).clients[i]?
    rw [Hub.client_perform (by simp), client_hub]
    cases hl : f.lines[i]? with
    | none => rfl
    | some l =>
      simp only [Option.map_some, Client.respond]
      rw [Client.offer, hquiet l hl]
      rfl
  underway _ := ⟨[], rfl, fun _ hr => by cases hr⟩

/-- What the broadcast under way makes of a client that it has not reached. -/
theorem Serial.client_whole (h : Serial start moves f pre rest) (hi : i ∈ f.pending) :
    (start.performAll (pre ++ rest)).clients[i]? =
      f.hub.clients[i]?.map fun c => c.offer f.depth f.message := by
  obtain ⟨receivers, rfl, hreceivers⟩ := h.underway (List.ne_nil_of_mem hi)
  have hothers : i ∉ receivers := fun hr => hreceivers i hr hi
  rw [Hub.performAll_append, Hub.client_performAll (by simp), h.early i hi, Hub.depth_performAll,
    h.depth]
  congr 1
  funext c
  exact Hub.respond_receives hothers start.depth _

theorem Serial.reach (h : Serial start moves f pre rest) (hsound : f.Sound)
    (hj : j ∈ f.pending) :
    Serial start (moves ++ [.reach j]) (f.after (.reach j)) pre rest where
  orders := h.orders.reach j
  depth := h.depth
  early i hi := by
    obtain ⟨hne, hpending⟩ := (List.Nodup.mem_erase_iff hsound.once).mp hi
    rw [← h.early i hpending, client_after (by simp), client_hub]
    simp only [effect, if_neg (Ne.symm hne)]
  whole i hi := by
    by_cases hij : i = j
    · subst hij
      obtain ⟨l, hl, hsubscribed⟩ := mem_members.mp (hsound.pending i hj)
      rw [h.client_whole hj, client_after (by simp), client_hub, hl]
      simp only [effect, if_true]
      exact congrArg some ((hsound.line i l hl).client_send hsubscribed)
    · have hout : i ∉ f.pending := fun hin => hi ((List.mem_erase_of_ne hij).mpr hin)
      rw [← h.whole i hout, client_after (by simp), client_hub]
      simp only [effect, if_neg (Ne.symm hij)]
  underway hbusy := by
    obtain ⟨receivers, hrest, hreceivers⟩ := h.underway (List.ne_nil_of_mem hj)
    exact ⟨receivers, hrest, fun r hr hin => hreceivers r hr (List.mem_of_mem_erase hin)⟩

theorem hub_receive (f : Floor) (i j : Nat) :
    (f.after (.receive j)).hub.clients[i]? =
      f.hub.clients[i]?.map fun c => c.respond f.depth i (.receive j) := by
  rw [client_after (by simp), client_hub, Option.map_map]
  congr 1
  funext l
  show (if j = i then l.receive else l).client = if j = i then l.client.take.2 else l.client
  split <;> rfl

/-- A client that the broadcast has not reached takes a message before it, any other after it. -/
theorem Serial.receive (h : Serial start moves f pre rest) (j : Nat) :
    ∃ pre rest, Serial start (moves ++ [.receive j]) (f.after (.receive j)) pre rest := by
  by_cases hj : j ∈ f.pending
  · obtain ⟨receivers, hrest, hreceivers⟩ := h.underway (List.ne_nil_of_mem hj)
    have hnone : Move.subscribe ∉ rest := by simp [hrest]
    refine ⟨pre ++ [.receive j], rest, h.orders.receive j, h.depth, fun i hi => ?_, fun i hi => ?_,
      fun _ => ⟨receivers, hrest, hreceivers⟩⟩
    · rw [hub_receive, h.early i hi, Hub.performAll_append, h.depth,
        ← Hub.depth_performAll start pre]
      exact (@Hub.client_perform (.receive j) (by simp) _ i).symm
    · have hne : i ≠ j := fun hij => hi (hij ▸ hj)
      have hstays (c : Client) : c.respond start.depth i (.receive j) = c := if_neg (Ne.symm hne)
      have hbefore : (start.performAll (pre ++ [.receive j])).clients[i]? =
          (start.performAll pre).clients[i]? := by
        rw [Hub.performAll_append, Hub.client_performAll (by simp), Hub.depth_performAll]
        simp [hstays]
      rw [hub_receive, h.whole i hi, Hub.performAll_append, Hub.performAll_append,
        Hub.client_performAll hnone, Hub.client_performAll hnone, hbefore, Hub.depth_performAll,
        Hub.depth_performAll, h.depth]
      simp only [hstays, Option.map_map]
      rfl
  · refine ⟨pre, rest ++ [.receive j], ?_, h.depth, fun i hi => ?_, fun i hi => ?_, fun hbusy => ?_⟩
    · rw [← List.append_assoc]
      exact h.orders.concat rfl
    · have hne : j ≠ i := fun hji => hj (hji ▸ hi)
      rw [hub_receive, ← h.early i hi]
      simp [Client.respond, hne]
    · rw [hub_receive, h.whole i hi, ← List.append_assoc, Hub.performAll_append start (pre ++ rest),
        h.depth, ← Hub.depth_performAll start (pre ++ rest)]
      exact (@Hub.client_perform (.receive j) (by simp) _ i).symm
    · obtain ⟨receivers, hrest, hreceivers⟩ := h.underway hbusy
      refine ⟨receivers ++ [j], by simp [hrest, after], fun r hr => ?_⟩
      rcases List.mem_append.mp hr with hr | hr
      · exact hreceivers r hr
      · rw [List.mem_singleton.mp hr]
        exact hj

/-- **Broadcasts might as well be made in one go.** -/
theorem serial_run (depth : Int) :
    ∀ moves f, (new depth).run? moves = some f →
      ∃ pre rest, Serial (Hub.new depth) moves f pre rest := by
  have hstart : Serial (Hub.new depth) [] (new depth) [] [] :=
    ⟨⟨.refl [], rfl⟩, rfl, fun _ _ => rfl, fun _ _ => rfl, fun h => absurd rfl h⟩
  refine run?_induction ⟨[], [], hstart⟩ ?_
  rintro moves f move hrun ⟨pre, rest, h⟩ hallowed
  cases move with
  | subscribe =>
    exact ⟨_, _, h.idle (by simpa [allows] using hallowed) rfl rfl
      (by simp [after, hub, Hub.perform, Hub.subscribe, Line.new])⟩
  | unsubscribe i =>
    have hidle : f.pending = [] ∧ i < f.lines.length := by simpa [allows] using hallowed
    exact ⟨_, _, h.idle hidle.1 rfl rfl (f.hub_unsubscribe i)⟩
  | broadcast message => exact ⟨_, _, h.broadcast (by simpa [allows] using hallowed) message⟩
  | reach i =>
    exact ⟨_, _, h.reach (sound_run (sound_new depth) hrun) (by simpa [allows] using hallowed)⟩
  | receive i => exact h.receive i

/-- **Clients get every message once and in order until they are dropped.** However clients come and
go, take messages and are reached by broadcasts: a client that is still subscribed has got, or has
waiting, or is owed by the broadcast under way, exactly the messages that were broadcast since it
subscribed. One that is not has got, or has waiting, those up to the move that ended its
subscription: that it was unsubscribed, or that a broadcast found its queue full for the first time,
which then does not count. It can take what is waiting at any time. Its queue has never more
messages than the depth, is never closed twice, and is sent nothing when it is closed. Between
broadcasts, the hub is what its own operations make of it one after the other. -/
theorem delivered_in_order (depth : Int) (moves : List Move) (f : Floor)
    (hrun : (new depth).run? moves = some f) :
    (∀ (i : Nat) (l : Line), f.lines[i]? = some l →
      (l.client.isSubscribed = true →
        l.taken ++ l.client.queue ++ f.owed i = Move.since i moves) ∧
      (l.client.isSubscribed = false →
        Ended (new depth) i moves (l.taken ++ l.client.queue)) ∧
      (∃ g, f.run? (List.replicate l.client.queue.length (.receive i)) = some g ∧
        ∃ l', g.lines[i]? = some l' ∧ l'.taken = l.taken ++ l.client.queue) ∧
      l.client.queue.length ≤ f.depth ∧ l.closings ≤ 1 ∧ l.late = 0) ∧
    (f.pending = [] →
      ∃ serial, Orders serial moves ∧ f.hub = (Hub.new depth).performAll serial) := by
  have hkept := kept_run depth hrun
  refine ⟨fun i l hl => ?_, fun hidle => ?_⟩
  · have hline := hkept.sound.line i l hl
    have honce : l.closings ≤ 1 := by
      rw [hline.closings]
      split <;> omega
    obtain ⟨g, hg, hgl⟩ := run?_receive l.client.queue hl rfl
    exact ⟨hkept.subscribed i l hl, hkept.ended i l hl, ⟨g, hg, _, hgl, rfl⟩, hline.room, honce,
      hline.late⟩
  · obtain ⟨pre, rest, hserial⟩ := serial_run depth moves f hrun
    exact ⟨pre ++ rest, hserial.orders, hserial.hub_eq hidle⟩

/-- With room for one message each, the first client is dropped by the second broadcast, though it
takes its message before that broadcast is over. The second takes both and leaves, twice. -/
theorem delivered_in_order_dropped :
    let moves : List Move := [.subscribe, .subscribe, .broadcast "a", .reach 1, .receive 1,
      .reach 0, .broadcast "b", .reach 0, .receive 0, .reach 1, .unsubscribe 1, .unsubscribe 1,
      .broadcast "c", .receive 1]
    ∃ f, (new 1).run? moves = some f ∧
      f.lines = [⟨⟨[], false⟩, ["a"], 1, 0⟩, ⟨⟨[], false⟩, ["a", "b"], 1, 0⟩] ∧
      Ended (new 1) 0 moves ["a"] ∧ Ended (new 1) 1 moves ["a", "b"] ∧
      ∃ serial, Orders serial moves ∧ f.hub = (Hub.new 1).performAll serial := by
  intro moves
  have hrun : (new 1).run? moves =
      some ⟨1, [⟨⟨[], false⟩, ["a"], 1, 0⟩, ⟨⟨[], false⟩, ["a", "b"], 1, 0⟩], "c", []⟩ := by decide
  obtain ⟨hlines, hserial⟩ := delivered_in_order 1 moves _ hrun
  exact ⟨_, hrun, rfl, (hlines 0 _ rfl).2.1 rfl, (hlines 1 _ rfl).2.1 rfl, hserial rfl⟩

end Floor

end IndentedSass.Live
