import Mathlib.Data.List.Basic
import PsplinkUsb.Library.Settling

/-!
Two sequential processes joined by two first-in first-out channels: a client,
and a server that starts a new process for each packet it accepts. A channel
keeps the packets as they were sent; a receive takes as many bytes as it asks
for, across packets, while the accepting server takes one packet.
-/

namespace PsplinkUsb.Library.Duplex

open PsplinkUsb.Library.Settling

universe u v w

variable {B : Type u} {A : Type v} {S : Type w}

/-- What a process does next. -/
inductive Proc (B : Type u) (A : Type v) where
  | done (a : A)
  | send (packet : List B) (next : Proc B A)
  | recv (n : ℕ) (next : List B → Proc B A)

def Proc.bind {A' : Type*} : Proc B A → (A → Proc B A') → Proc B A'
  | .done a, f => f a
  | .send packet next, f => .send packet (next.bind f)
  | .recv n next, f => .recv n fun data => (next data).bind f

/-- What a process comes to on an input: the packets it sends, its result and the
input it leaves. -/
structure Outcome (B : Type u) (A : Type v) where
  sent : List (List B)
  result : A
  rest : List B

def Proc.feed : Proc B A → List B → Option (Outcome B A)
  | .done a, input => some { sent := [], result := a, rest := input }
  | .send packet next, input =>
      (next.feed input).map fun o => { o with sent := packet :: o.sent }
  | .recv n next, input =>
      if n ≤ input.length then (next (input.take n)).feed (input.drop n) else none

theorem feed_bind_done {A' : Type*} (p : Proc B A) (f : A → A') (input : List B) :
    (p.bind fun a => .done (f a)).feed input =
      (p.feed input).map fun o => { sent := o.sent, result := f o.result, rest := o.rest } := by
  induction p generalizing input with
  | done a => rfl
  | send packet next ih =>
      rw [Proc.bind, Proc.feed, Proc.feed, ih, Option.map_map, Option.map_map]
      rfl
  | recv n next ih =>
      rw [Proc.bind, Proc.feed, Proc.feed]
      split
      · exact ih _ _
      · rfl

def Proc.firstSent : Proc B A → List B → Option (List B)
  | .done _, _ => none
  | .send packet _, _ => some packet
  | .recv n next, input =>
      if n ≤ input.length then (next (input.take n)).firstSent (input.drop n) else none

def Proc.EndsSending : Proc B A → Prop
  | .done _ => False
  | .send _ next => (∃ a, next = .done a) ∨ next.EndsSending
  | .recv _ next => ∀ data, (next data).EndsSending

/-- The first `n` bytes of a channel and the channel after them. -/
def pull : ℕ → List (List B) → Option (List B × List (List B))
  | 0, channel => some ([], channel)
  | _ + 1, [] => none
  | n + 1, packet :: channel =>
      if n + 1 < packet.length then
        some (packet.take (n + 1), packet.drop (n + 1) :: channel)
      else (pull (n + 1 - packet.length) channel).map fun r => (packet ++ r.1, r.2)

def Proper (channel : List (List B)) : Prop := ∀ packet ∈ channel, packet ≠ []

theorem pull_append {n : ℕ} {channel channel' : List (List B)} {data : List B}
    (h : pull n channel = some (data, channel')) (more : List (List B)) :
    pull n (channel ++ more) = some (data, channel' ++ more) := by
  induction channel generalizing n data with
  | nil =>
      cases n with
      | zero =>
          obtain ⟨rfl, rfl⟩ := by simpa [pull] using h
          simp [pull]
      | succ n => simp [pull] at h
  | cons packet channel ih =>
      cases n with
      | zero =>
          obtain ⟨rfl, rfl⟩ := by simpa [pull] using h
          simp [pull]
      | succ n =>
          rw [pull] at h
          rw [List.cons_append, pull]
          split at h
          · rename_i hlt
            obtain ⟨rfl, rfl⟩ := by simpa using h
            rw [if_pos hlt]
            rfl
          · rename_i hge
            obtain ⟨⟨data', rest⟩, hpull, heq⟩ := Option.map_eq_some_iff.mp h
            obtain ⟨rfl, rfl⟩ := by simpa using heq
            rw [if_neg hge, ih hpull]
            rfl

theorem pull_of_le {n : ℕ} {channel : List (List B)} (hproper : Proper channel)
    (hn : n ≤ channel.flatten.length) :
    ∃ channel', pull n channel = some (channel.flatten.take n, channel') ∧
      channel'.flatten = channel.flatten.drop n ∧ Proper channel' := by
  induction channel generalizing n with
  | nil =>
      obtain rfl : n = 0 := by simpa using hn
      exact ⟨[], by simp [pull], by simp, hproper⟩
  | cons packet channel ih =>
      cases n with
      | zero => exact ⟨packet :: channel, by simp [pull], by simp, hproper⟩
      | succ n =>
          have hrest : Proper channel := fun p hp => hproper p (List.mem_cons_of_mem _ hp)
          by_cases hlt : n + 1 < packet.length
          · refine ⟨packet.drop (n + 1) :: channel, ?_, ?_, ?_⟩
            · rw [pull, if_pos hlt, List.flatten_cons,
                List.take_append_of_le_length (Nat.le_of_lt hlt)]
            · rw [List.flatten_cons, List.flatten_cons,
                List.drop_append_of_le_length (Nat.le_of_lt hlt)]
            · intro p hp
              rcases List.mem_cons.mp hp with rfl | hp
              · intro hnil
                have := congrArg List.length hnil
                simp only [List.length_drop, List.length_nil] at this
                omega
              · exact hrest p hp
          · simp only [List.flatten_cons, List.length_append] at hn
            obtain ⟨channel', hpull, hflatten, hproper'⟩ :=
              ih (n := n + 1 - packet.length) hrest (by omega)
            refine ⟨channel', ?_, ?_, hproper'⟩
            · rw [pull, if_neg hlt, hpull, List.flatten_cons, List.take_append,
                List.take_of_length_le (by omega : packet.length ≤ n + 1)]
              rfl
            · rw [hflatten, List.flatten_cons, List.drop_append,
                List.drop_eq_nil_of_le (by omega : packet.length ≤ n + 1), List.nil_append]

/-- The two processes, the packets in flight and those sent and accepted so far. -/
structure Config (B : Type u) (A : Type v) (S : Type w) where
  client : Proc B A
  server : Proc B S
  toServer : List (List B)
  toClient : List (List B)
  clientSent : List (List B)
  serverSent : List (List B)
  accepted : List (List B)

def clientStep (c : Config B A S) : Option (Config B A S) :=
  match c.client with
  | .done _ => none
  | .send packet next =>
      some { c with
        client := next
        toServer := c.toServer ++ [packet]
        clientSent := c.clientSent ++ [packet] }
  | .recv n next =>
      (pull n c.toClient).map fun r => { c with client := next r.1, toClient := r.2 }

/-- A server that is done accepts the next packet, at most `limit` bytes of it. -/
def serverStep (serve : S → List B → Proc B S) (limit : ℕ) (c : Config B A S) :
    Option (Config B A S) :=
  match c.server with
  | .send packet next =>
      some { c with
        server := next
        toClient := c.toClient ++ [packet]
        serverSent := c.serverSent ++ [packet] }
  | .recv n next =>
      (pull n c.toServer).map fun r => { c with server := next r.1, toServer := r.2 }
  | .done s =>
      match c.toServer with
      | [] => none
      | packet :: rest =>
          some { c with
            server := serve s (packet.take limit)
            toServer := if packet.length ≤ limit then rest else packet.drop limit :: rest
            accepted := c.accepted ++ [packet.take limit] }

def Step (serve : S → List B → Proc B S) (limit : ℕ) (c c' : Config B A S) : Prop :=
  clientStep c = some c' ∨ serverStep serve limit c = some c'

variable {serve : S → List B → Proc B S} {limit : ℕ}

/-- Steps of the two processes commute: what one sends goes behind what the
other has still to receive. -/
theorem step_commute {c a b : Config B A S} (ha : clientStep c = some a)
    (hb : serverStep serve limit c = some b) :
    ∃ d, serverStep serve limit a = some d ∧ clientStep b = some d := by
  obtain ⟨client, server, toServer, toClient, clientSent, serverSent, accepted⟩ := c
  cases client with
  | done x => simp [clientStep] at ha
  | send packet next =>
      obtain rfl := by simpa [clientStep] using ha
      cases server with
      | done s =>
          cases toServer with
          | nil => simp [serverStep] at hb
          | cons p rest =>
              obtain rfl := by simpa [serverStep] using hb
              refine ⟨_, rfl, ?_⟩
              simp only [clientStep]
              split <;> rfl
      | send packet' next' =>
          obtain rfl := by simpa [serverStep] using hb
          exact ⟨_, rfl, rfl⟩
      | recv n next' =>
          obtain ⟨⟨data, rest⟩, hpull, rfl⟩ := Option.map_eq_some_iff.mp hb
          refine ⟨_, ?_, rfl⟩
          simp only [serverStep]
          rw [pull_append hpull]
          rfl
  | recv n next =>
      obtain ⟨⟨data, rest⟩, hpull, rfl⟩ := Option.map_eq_some_iff.mp ha
      cases server with
      | done s =>
          cases toServer with
          | nil => simp [serverStep] at hb
          | cons p rest =>
              obtain rfl := by simpa [serverStep] using hb
              refine ⟨_, rfl, ?_⟩
              simp only [clientStep]
              rw [hpull]
              rfl
      | send packet' next' =>
          obtain rfl := by simpa [serverStep] using hb
          refine ⟨_, rfl, ?_⟩
          simp only [clientStep]
          rw [pull_append hpull]
          rfl
      | recv m next' =>
          obtain ⟨⟨data', rest'⟩, hpull', rfl⟩ := Option.map_eq_some_iff.mp hb
          let d : Config B A S :=
            ⟨next data, next' data', rest', rest, clientSent, serverSent, accepted⟩
          refine ⟨d, ?_, ?_⟩
          · simp only [serverStep]
            rw [hpull']
            rfl
          · simp only [clientStep]
            rw [hpull]
            rfl

theorem step_diamond : Diamond (Step (A := A) serve limit) := by
  rintro c a b (ha | ha) (hb | hb)
  · exact .inl (Option.some.inj (ha.symm.trans hb))
  · obtain ⟨d, had, hbd⟩ := step_commute ha hb
    exact .inr ⟨d, .inr had, .inl hbd⟩
  · obtain ⟨d, hbd, had⟩ := step_commute hb ha
    exact .inr ⟨d, .inl had, .inr hbd⟩
  · exact .inl (Option.some.inj (ha.symm.trans hb))

theorem clientSteps_of_feed {p : Proc B A} {c : Config B A S} {o : Outcome B A}
    (hclient : c.client = p) (hproper : Proper c.toClient)
    (hfeed : p.feed c.toClient.flatten = some o) :
    ∃ n channel, channel.flatten = o.rest ∧ Proper channel ∧
      Steps (Step serve limit) n c { c with
        client := .done o.result
        toServer := c.toServer ++ o.sent
        toClient := channel
        clientSent := c.clientSent ++ o.sent } := by
  induction p generalizing c o with
  | done a =>
      obtain rfl := by simpa [Proc.feed] using hfeed
      refine ⟨0, c.toClient, rfl, hproper, ?_⟩
      obtain ⟨client, server, toServer, toClient, clientSent, serverSent, accepted⟩ := c
      obtain rfl : client = .done a := hclient
      simpa using Steps.refl _
  | send packet next ih =>
      obtain ⟨o', hfeed', rfl⟩ := Option.map_eq_some_iff.mp hfeed
      let c' : Config B A S := { c with
        client := next
        toServer := c.toServer ++ [packet]
        clientSent := c.clientSent ++ [packet] }
      have hstep : clientStep c = some c' := by simp [clientStep, hclient, c']
      obtain ⟨n, channel, hflatten, hproper', hsteps⟩ := ih (c := c') rfl hproper hfeed'
      refine ⟨n + 1, channel, hflatten, hproper', .head (.inl hstep) ?_⟩
      simpa [c'] using hsteps
  | recv n next ih =>
      rw [Proc.feed] at hfeed
      split at hfeed
      · rename_i hle
        obtain ⟨channel, hpull, hflatten, hproper'⟩ := pull_of_le hproper hle
        rw [← hflatten] at hfeed
        let c' : Config B A S := { c with
          client := next (c.toClient.flatten.take n)
          toClient := channel }
        have hstep : clientStep c = some c' := by simp [clientStep, hclient, hpull, c']
        obtain ⟨m, channel', hflatten', hproper'', hsteps⟩ := ih _ (c := c') rfl hproper' hfeed
        exact ⟨m + 1, channel', hflatten', hproper'', .head (.inl hstep) hsteps⟩
      · simp at hfeed

theorem serverSteps_of_feed {p : Proc B S} {c : Config B A S} {o : Outcome B S}
    (hserver : c.server = p) (hproper : Proper c.toServer)
    (hfeed : p.feed c.toServer.flatten = some o) :
    ∃ n channel, channel.flatten = o.rest ∧ Proper channel ∧
      Steps (Step serve limit) n c { c with
        server := .done o.result
        toServer := channel
        toClient := c.toClient ++ o.sent
        serverSent := c.serverSent ++ o.sent } := by
  induction p generalizing c o with
  | done a =>
      obtain rfl := by simpa [Proc.feed] using hfeed
      refine ⟨0, c.toServer, rfl, hproper, ?_⟩
      obtain ⟨client, server, toServer, toClient, clientSent, serverSent, accepted⟩ := c
      obtain rfl : server = .done a := hserver
      simpa using Steps.refl _
  | send packet next ih =>
      obtain ⟨o', hfeed', rfl⟩ := Option.map_eq_some_iff.mp hfeed
      let c' : Config B A S := { c with
        server := next
        toClient := c.toClient ++ [packet]
        serverSent := c.serverSent ++ [packet] }
      have hstep : serverStep serve limit c = some c' := by simp [serverStep, hserver, c']
      obtain ⟨n, channel, hflatten, hproper', hsteps⟩ := ih (c := c') rfl hproper hfeed'
      refine ⟨n + 1, channel, hflatten, hproper', .head (.inr hstep) ?_⟩
      simpa [c'] using hsteps
  | recv n next ih =>
      rw [Proc.feed] at hfeed
      split at hfeed
      · rename_i hle
        obtain ⟨channel, hpull, hflatten, hproper'⟩ := pull_of_le hproper hle
        rw [← hflatten] at hfeed
        let c' : Config B A S := { c with
          server := next (c.toServer.flatten.take n)
          toServer := channel }
        have hstep : serverStep serve limit c = some c' := by
          simp [serverStep, hserver, hpull, c']
        obtain ⟨m, channel', hflatten', hproper'', hsteps⟩ := ih _ (c := c') rfl hproper' hfeed
        exact ⟨m + 1, channel', hflatten', hproper'', .head (.inr hstep) hsteps⟩
      · simp at hfeed

def sendAll : List (List B) → Proc B A → Proc B A
  | [], p => p
  | packet :: packets, p => .send packet (sendAll packets p)

theorem feed_sendAll (packets : List (List B)) (p : Proc B A) (input : List B) :
    (sendAll packets p).feed input =
      (p.feed input).map fun o => { o with sent := packets ++ o.sent } := by
  induction packets with
  | nil => simp [sendAll]
  | cons packet packets ih =>
      rw [sendAll, Proc.feed, ih, Option.map_map]
      rfl

/-- Nothing is in flight and the server waits for the next packet. -/
def idle (client : Proc B A) (s : S) (clientSent serverSent accepted : List (List B)) :
    Config B A S where
  client := client
  server := .done s
  toServer := []
  toClient := []
  clientSent := clientSent
  serverSent := serverSent
  accepted := accepted

theorem idle_terminal (a : A) (s : S) (clientSent serverSent accepted : List (List B)) :
    Terminal (Step serve limit) (idle (.done a) s clientSent serverSent accepted) := by
  rintro e (h | h)
  · simp [clientStep, idle] at h
  · simp [serverStep, idle] at h

theorem eq_nil_of_flatten {channel : List (List B)} (hproper : Proper channel)
    (hflatten : channel.flatten = []) : channel = [] := by
  cases channel with
  | nil => rfl
  | cons packet channel =>
      rw [List.flatten_cons, List.append_eq_nil_iff] at hflatten
      exact absurd hflatten.1 (hproper packet (List.mem_cons_self ..))

theorem sendAll_steps {p : Proc B A} (packets : List (List B)) {c : Config B A S}
    (hc : c.client = sendAll packets p) :
    Steps (Step serve limit) packets.length c { c with
      client := p
      toServer := c.toServer ++ packets
      clientSent := c.clientSent ++ packets } := by
  induction packets generalizing c with
  | nil =>
      obtain ⟨client, server, toServer, toClient, clientSent, serverSent, accepted⟩ := c
      obtain rfl : client = p := hc
      simpa using Steps.refl _
  | cons packet packets ih =>
      let c' : Config B A S := { c with
        client := sendAll packets p
        toServer := c.toServer ++ [packet]
        clientSent := c.clientSent ++ [packet] }
      have hstep : clientStep c = some c' := by simp [clientStep, hc, sendAll, c']
      have hrest := ih (c := c') rfl
      simp only [c', List.append_assoc, List.singleton_append] at hrest
      exact .head (.inl hstep) hrest

variable {cs ss acc : List (List B)}

/-- One exchange from rest to rest: the client sends a header and data, the
server accepts the header, takes exactly the data and answers, and the client
takes exactly the answer. -/
theorem exchange_steps {header : List B} {data : List (List B)} {p : Proc B A} {s s' : S}
    {a : A} {answer : List (List B)} (hlimit : header.length ≤ limit) (hdata : Proper data)
    (hanswer : Proper answer)
    (hserve : (serve s header).feed data.flatten =
      some { sent := answer, result := s', rest := [] })
    (hclient : p.feed answer.flatten = some { sent := [], result := a, rest := [] }) :
    ∃ n, Steps (Step serve limit) n (idle (sendAll (header :: data) p) s cs ss acc)
      (idle (.done a) s' (cs ++ header :: data) (ss ++ answer) (acc ++ [header])) := by
  -- the client sends the request
  have hrequest := @sendAll_steps B A S serve limit p (header :: data)
    (idle (sendAll (header :: data) p) s cs ss acc) rfl
  -- the server accepts the header
  let atServer : Config B A S :=
    ⟨p, serve s header, data, [], cs ++ header :: data, ss, acc ++ [header]⟩
  have haccept : serverStep serve limit
      ⟨p, .done s, header :: data, [], cs ++ header :: data, ss, acc⟩ = some atServer := by
    simp [serverStep, atServer, List.take_of_length_le hlimit, hlimit]
  -- the server takes the data and answers
  obtain ⟨n, channel, hflatten, hproper, hanswered⟩ :=
    serverSteps_of_feed (c := atServer) rfl hdata hserve
  obtain rfl := eq_nil_of_flatten hproper hflatten
  -- the client takes the answer
  let atClient : Config B A S :=
    ⟨p, .done s', [], answer, cs ++ header :: data, ss ++ answer, acc ++ [header]⟩
  obtain ⟨m, channel', hflatten', hproper', htaken⟩ :=
    @clientSteps_of_feed B A S serve limit p atClient _ rfl hanswer hclient
  obtain rfl := eq_nil_of_flatten hproper' hflatten'
  simp only [atClient, List.append_nil] at htaken
  exact ⟨_, hrequest.trans (.head (.inr haccept) (hanswered.trans htaken))⟩

/-- A header and data that are not answered: the client goes on when they are sent, the
server takes them. -/
theorem handover_steps {header : List B} {data : List (List B)} {p : Proc B A} {s s' : S}
    (hlimit : header.length ≤ limit) (hdata : Proper data)
    (hserve : (serve s header).feed data.flatten =
      some { sent := [], result := s', rest := [] }) :
    ∃ n, Steps (Step serve limit) n (idle (sendAll (header :: data) p) s cs ss acc)
      (idle p s' (cs ++ header :: data) ss (acc ++ [header])) := by
  have hrequest := @sendAll_steps B A S serve limit p (header :: data)
    (idle (sendAll (header :: data) p) s cs ss acc) rfl
  let atServer : Config B A S :=
    ⟨p, serve s header, data, [], cs ++ header :: data, ss, acc ++ [header]⟩
  have haccept : serverStep serve limit
      ⟨p, .done s, header :: data, [], cs ++ header :: data, ss, acc⟩ = some atServer := by
    simp [serverStep, atServer, List.take_of_length_le hlimit, hlimit]
  obtain ⟨n, channel, hflatten, hproper, htaken⟩ :=
    serverSteps_of_feed (c := atServer) rfl hdata hserve
  obtain rfl := eq_nil_of_flatten hproper hflatten
  simp only [atServer, List.append_nil] at htaken
  exact ⟨_, hrequest.trans (.head (.inr haccept) htaken)⟩

def Config.bind {A' : Type*} (c : Config B A S) (f : A → Proc B A') : Config B A' S where
  client := c.client.bind f
  server := c.server
  toServer := c.toServer
  toClient := c.toClient
  clientSent := c.clientSent
  serverSent := c.serverSent
  accepted := c.accepted

theorem clientStep_bind {A' : Type*} {c : Config B A S} (f : A → Proc B A')
    (hbusy : ∀ a, c.client ≠ .done a) :
    clientStep (c.bind f) = (clientStep c).map fun d => d.bind f := by
  obtain ⟨client, server, toServer, toClient, clientSent, serverSent, accepted⟩ := c
  cases client with
  | done a => exact absurd rfl (hbusy a)
  | send packet next => rfl
  | recv n next =>
      simp only [Config.bind, Proc.bind, clientStep, Option.map_map]
      rfl

theorem serverStep_bind {A' : Type*} (c : Config B A S) (f : A → Proc B A') :
    serverStep serve limit (c.bind f) = (serverStep serve limit c).map fun d => d.bind f := by
  obtain ⟨client, server, toServer, toClient, clientSent, serverSent, accepted⟩ := c
  cases server with
  | done s => cases toServer <;> rfl
  | send packet next => rfl
  | recv n next =>
      simp only [Config.bind, serverStep, Option.map_map]
      rfl

theorem step_bind {A' : Type*} {c d : Config B A S} (f : A → Proc B A')
    (h : Step serve limit c d) : Step serve limit (c.bind f) (d.bind f) := by
  rcases h with h | h
  · left
    rw [clientStep_bind, h, Option.map_some]
    intro a hdone
    simp [clientStep, hdone] at h
  · right
    rw [serverStep_bind, h, Option.map_some]

theorem step_of_bind {A' : Type*} {c : Config B A S} {d : Config B A' S} {f : A → Proc B A'}
    (hbusy : ∀ a, c.client ≠ .done a) (h : Step serve limit (c.bind f) d) :
    ∃ c', Step serve limit c c' ∧ d = c'.bind f := by
  rcases h with h | h
  · rw [clientStep_bind f hbusy] at h
    obtain ⟨c', hstep, rfl⟩ := Option.map_eq_some_iff.mp h
    exact ⟨c', .inl hstep, rfl⟩
  · rw [serverStep_bind] at h
    obtain ⟨c', hstep, rfl⟩ := Option.map_eq_some_iff.mp h
    exact ⟨c', .inr hstep, rfl⟩

theorem steps_bind {A' : Type*} {n : ℕ} {c d : Config B A S} (f : A → Proc B A')
    (h : Steps (Step serve limit) n c d) :
    Steps (Step serve limit) n (c.bind f) (d.bind f) := by
  induction h with
  | refl c => exact .refl _
  | head hstep _ ih => exact .head (step_bind f hstep) ih

/-- The server on the way through an exchange: it has accepted nothing and is in state
`s`, or it has accepted `header` and is at work on it or done. -/
def Serving (acc : List (List B)) (header : List B) (s : S) (c : Config B A S) : Prop :=
  c.accepted <+: acc ++ [header] →
    c.accepted = acc ∧ c.server = .done s ∨
      c.accepted = acc ++ [header] ∧ (c.server.EndsSending ∨ ∃ s', c.server = .done s')

theorem accepted_step {c d : Config B A S} (h : Step serve limit c d) :
    c.accepted <+: d.accepted := by
  rcases h with h | h
  · rw [clientStep] at h
    split at h
    · simp at h
    · obtain rfl := Option.some.inj h
      exact List.prefix_rfl
    · obtain ⟨r, -, rfl⟩ := Option.map_eq_some_iff.mp h
      exact List.prefix_rfl
  · rw [serverStep] at h
    split at h
    · obtain rfl := Option.some.inj h
      exact List.prefix_rfl
    · obtain ⟨r, -, rfl⟩ := Option.map_eq_some_iff.mp h
      exact List.prefix_rfl
    · split at h
      · simp at h
      · obtain rfl := Option.some.inj h
        exact List.prefix_append ..

theorem client_serverStep {c d : Config B A S} (h : serverStep serve limit c = some d) :
    d.client = c.client := by
  rw [serverStep] at h
  split at h
  · obtain rfl := Option.some.inj h
    rfl
  · obtain ⟨r, -, rfl⟩ := Option.map_eq_some_iff.mp h
    rfl
  · split at h
    · simp at h
    · obtain rfl := Option.some.inj h
      rfl

theorem Serving.step {header : List B} {s : S} {c d : Config B A S}
    (hends : (serve s header).EndsSending) (hc : Serving acc header s c)
    (h : Step serve limit c d) : Serving acc header s d := by
  intro hd
  have hserving := hc ((accepted_step h).trans hd)
  rcases h with h | h
  · -- the client's step is none of the server's
    rw [clientStep] at h
    split at h
    · simp at h
    · obtain rfl := Option.some.inj h
      exact hserving
    · obtain ⟨r, -, rfl⟩ := Option.map_eq_some_iff.mp h
      exact hserving
  · rw [serverStep] at h
    split at h
    · rename_i packet next hserver
      obtain rfl := Option.some.inj h
      rcases hserving with ⟨-, hdone⟩ | ⟨haccepted, hends | ⟨s', hdone⟩⟩
      · simp [hserver] at hdone
      · rw [hserver] at hends
        exact .inr ⟨haccepted, hends.symm⟩
      · simp [hserver] at hdone
    · rename_i n next hserver
      obtain ⟨r, -, rfl⟩ := Option.map_eq_some_iff.mp h
      rcases hserving with ⟨-, hdone⟩ | ⟨haccepted, hends | ⟨s', hdone⟩⟩
      · simp [hserver] at hdone
      · rw [hserver] at hends
        exact .inr ⟨haccepted, .inl (hends r.1)⟩
      · simp [hserver] at hdone
    · rename_i s' hserver
      split at h
      · simp at h
      · rename_i packet rest _
        obtain rfl := Option.some.inj h
        rcases hserving with ⟨haccepted, hdone⟩ | ⟨haccepted, -⟩
        · obtain rfl : s' = s := by simpa [hserver] using hdone
          simp only [haccepted, List.prefix_append_right_inj] at hd
          obtain hheader : packet.take limit = header := by simpa using hd
          refine .inr ⟨?_, .inl ?_⟩
          · simp only [haccepted, hheader]
          · simpa only [hheader] using hends
        · have hlength := hd.length_le
          simp [haccepted] at hlength

/-- The end of an exchange is the only state in which the client is done: the server's
last step would leave a packet behind. -/
theorem not_lagging {header : List B} {s s' : S} {a a' : A} {c : Config B A S}
    (hends : (serve s header).EndsSending) (hc : Serving acc header s c)
    (hdone : c.client = .done a') :
    ¬ Step serve limit c (idle (.done a) s' cs ss (acc ++ [header])) := by
  intro h
  have hserving := hc (accepted_step h)
  rcases h with h | h
  · simp [clientStep, hdone] at h
  · rw [serverStep] at h
    split at h
    · have hchannel := congrArg Config.toClient (Option.some.inj h)
      simp [idle] at hchannel
    · rename_i n next hserver
      obtain ⟨r, -, heq⟩ := Option.map_eq_some_iff.mp h
      have hnext : next r.1 = .done s' := congrArg Config.server heq
      rcases hserving with ⟨-, hdone⟩ | ⟨-, hends | ⟨s', hdone⟩⟩
      · simp [hserver] at hdone
      · rw [hserver] at hends
        have := hends r.1
        rw [hnext] at this
        exact this
      · simp [hserver] at hdone
    · rename_i s'' hserver
      split at h
      · simp at h
      · rename_i packet rest _
        have haccepted : c.accepted ++ [packet.take limit] = acc ++ [header] :=
          congrArg Config.accepted (Option.some.inj h)
        have hserved : serve s'' (packet.take limit) = .done s' :=
          congrArg Config.server (Option.some.inj h)
        obtain ⟨hacc, hheader⟩ := List.append_inj' haccepted rfl
        rcases hserving with ⟨-, hdone⟩ | ⟨hacc', -⟩
        · obtain rfl : s'' = s := by simpa [hserver] using hdone
          obtain rfl : packet.take limit = header := by simpa using hheader
          rw [hserved] at hends
          exact hends
        · simp [hacc] at hacc'

/-- Every run from `c` comes to rest in `d`, and has come there when the client is
done. -/
structure Concludes (serve : S → List B → Proc B S) (limit : ℕ) (c d : Config B A S) :
    Prop where
  run : ∃ n, Steps (Step serve limit) n c d
  terminal : Terminal (Step serve limit) d
  returned : ∀ k e a, Steps (Step serve limit) k c e → e.client = .done a → e = d

theorem Concludes.settles {c d : Config B A S} (h : Concludes serve limit c d) :
    Settles (Step serve limit) c d := by
  obtain ⟨n, hrun⟩ := h.run
  exact settles_of_steps step_diamond hrun h.terminal

theorem Concludes.step {c c' d : Config B A S} (h : Concludes serve limit c d)
    (hstep : Step serve limit c c') : Concludes serve limit c' d where
  run := by
    obtain ⟨-, N, hsettles⟩ := h.settles
    exact ⟨N - 1, (hsettles 1 c' (.single hstep)).2⟩
  terminal := h.terminal
  returned := fun k e a hsteps => h.returned (k + 1) e a (.head hstep hsteps)

theorem concludes_done (a : A) (s : S) :
    Concludes serve limit (idle (.done a) s cs ss acc) (idle (.done a) s cs ss acc) where
  run := ⟨0, .refl _⟩
  terminal := idle_terminal a s cs ss acc
  returned := by
    rintro k e a' hsteps -
    cases hsteps with
    | refl => rfl
    | head hstep _ => exact absurd hstep (idle_terminal a s cs ss acc _)

theorem Serving.steps {header : List B} {s : S} {n : ℕ} {c d : Config B A S}
    (hends : (serve s header).EndsSending) (hc : Serving acc header s c)
    (h : Steps (Step serve limit) n c d) : Serving acc header s d := by
  induction h with
  | refl c => exact hc
  | head hstep _ ih => exact ih (hc.step hends hstep)

theorem eq_end_of_done {header : List B} {s s' : S} {a a' : A} {n : ℕ} {c : Config B A S}
    (hends : (serve s header).EndsSending) (hc : Serving acc header s c)
    (hrest : Steps (Step serve limit) n c (idle (.done a) s' cs ss (acc ++ [header])))
    (hdone : c.client = .done a') : c = idle (.done a) s' cs ss (acc ++ [header]) := by
  generalize hd : idle (.done a) s' cs ss (acc ++ [header]) = d at hrest ⊢
  induction hrest with
  | refl c => rfl
  | @head n c c' d hstep hrest ih =>
      have hdone' : c'.client = .done a' := by
        rcases hstep with h | h
        · simp [clientStep, hdone] at h
        · rw [← hdone, client_serverStep h]
      obtain rfl := ih (hc.step hends hstep) hdone' hd
      rw [← hd] at hstep
      exact absurd hstep (not_lagging hends hc hdone)

theorem concludes_exchange {header : List B} {data : List (List B)} {p : Proc B A} {s s' : S}
    {a : A} {answer : List (List B)} (hlimit : header.length ≤ limit) (hdata : Proper data)
    (hanswer : Proper answer)
    (hserve : (serve s header).feed data.flatten =
      some { sent := answer, result := s', rest := [] })
    (hends : (serve s header).EndsSending)
    (hclient : p.feed answer.flatten = some { sent := [], result := a, rest := [] }) :
    Concludes serve limit (idle (sendAll (header :: data) p) s cs ss acc)
      (idle (.done a) s' (cs ++ header :: data) (ss ++ answer) (acc ++ [header])) where
  run := exchange_steps hlimit hdata hanswer hserve hclient
  terminal := idle_terminal a s' _ _ _
  returned := by
    intro k e a' hsteps hdone
    obtain ⟨n, hrun⟩ := @exchange_steps B A S serve limit cs ss acc header data p s s' a answer
      hlimit hdata hanswer hserve hclient
    obtain ⟨-, N, hsettles⟩ := settles_of_steps step_diamond hrun (idle_terminal a s' _ _ _)
    have hstart : Serving acc header s (idle (sendAll (header :: data) p) s cs ss acc) :=
      fun _ => .inl ⟨rfl, rfl⟩
    exact eq_end_of_done hends (hstart.steps hends hsteps) (hsettles k e hsteps).2 hdone

/-- A run of a composed client is a run of its first part, or goes on after a state in
which the first part is done. -/
theorem steps_of_bind {A' : Type*} {n : ℕ} {c : Config B A S} {d : Config B A' S}
    {f : A → Proc B A'} (h : Steps (Step serve limit) n (c.bind f) d) :
    (∃ c', Steps (Step serve limit) n c c' ∧ d = c'.bind f) ∨
      ∃ i k c' a, Steps (Step serve limit) i c c' ∧ c'.client = .done a ∧
        Steps (Step serve limit) k (c'.bind f) d := by
  induction n generalizing c with
  | zero =>
      cases h
      exact .inl ⟨c, .refl _, rfl⟩
  | succ n ih =>
      by_cases hdone : ∃ a, c.client = .done a
      · obtain ⟨a, hdone⟩ := hdone
        exact .inr ⟨0, n + 1, c, a, .refl _, hdone, h⟩
      · obtain _ | ⟨hstep, hrest⟩ := h
        obtain ⟨c', hstep', rfl⟩ := step_of_bind (fun a ha => hdone ⟨a, ha⟩) hstep
        rcases ih hrest with ⟨e, hsteps, rfl⟩ | ⟨i, k, e, a, hsteps, hdone', hafter⟩
        · exact .inl ⟨e, .head hstep' hsteps, rfl⟩
        · exact .inr ⟨i + 1, k, e, a, .head hstep' hsteps, hdone', hafter⟩

theorem Concludes.bind {A' : Type*} {c : Config B A S} {d : Config B A' S} {a : A} {s : S}
    {f : A → Proc B A'} (hfirst : Concludes serve limit c (idle (.done a) s cs ss acc))
    (hrest : Concludes serve limit (idle (f a) s cs ss acc) d) :
    Concludes serve limit (c.bind f) d where
  run := by
    obtain ⟨n, hn⟩ := hfirst.run
    obtain ⟨m, hm⟩ := hrest.run
    exact ⟨n + m, (steps_bind f hn).trans hm⟩
  terminal := hrest.terminal
  returned := by
    intro k e a' hsteps hdone
    rcases steps_of_bind hsteps with ⟨c', hsteps', rfl⟩ | ⟨i, j, c', b, hsteps', hdone', hafter⟩
    · -- the client is done within its first part
      obtain ⟨b, hb⟩ : ∃ b, c'.client = .done b := by
        generalize hclient : c'.client = client at hdone
        cases client with
        | done b => exact ⟨b, rfl⟩
        | send packet next => simp [Config.bind, hclient, Proc.bind] at hdone
        | recv n next => simp [Config.bind, hclient, Proc.bind] at hdone
      obtain rfl := hfirst.returned _ _ _ hsteps' hb
      exact hrest.returned 0 _ a' (.refl _) hdone
    · obtain rfl := hfirst.returned _ _ _ hsteps' hdone'
      exact hrest.returned _ _ _ hafter hdone

end PsplinkUsb.Library.Duplex
