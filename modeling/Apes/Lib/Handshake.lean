import Apes.Lib.Program

/-!
# The request-reply handshake

Two parties take turns: the first sends a request and waits for the reply to it,
the second takes the request and then replies. The four counters say how often
each of the four things has happened. Whatever follows this pattern has at most
one message under way.
-/

namespace Apes

/-- How often each step of the handshake has been made. -/
@[ext] structure Handshake where
  requests : ℕ
  delivered : ℕ
  replies : ℕ
  acks : ℕ

namespace Handshake

/-- The steps: the first party requests and takes the reply, the second one takes
    the request and replies. -/
inductive Step
  | request
  | deliver
  | reply
  | ack
  deriving DecidableEq, Repr

/-- The first party requests when all its requests are acknowledged, the second
    one replies when it has taken a request that it has not replied to. -/
def guard (h : Handshake) : Step → Prop
  | .request => h.requests = h.acks
  | .deliver => h.delivered < h.requests
  | .reply => h.replies < h.delivered
  | .ack => h.acks < h.replies

def act : Step → Handshake → Handshake
  | .request, h => { h with requests := h.requests + 1 }
  | .deliver, h => { h with delivered := h.delivered + 1 }
  | .reply, h => { h with replies := h.replies + 1 }
  | .ack, h => { h with acks := h.acks + 1 }

/-- The handshake, with nothing sent yet. -/
def program : Program Handshake Step where
  init h := h = ⟨0, 0, 0, 0⟩
  guard := guard
  act := act

/-- Each counter is bounded by the one before it, and the first one is at most one
    ahead of the last. -/
structure Chain (h : Handshake) : Prop where
  acks_le : h.acks ≤ h.replies
  replies_le : h.replies ≤ h.delivered
  delivered_le : h.delivered ≤ h.requests
  requests_le : h.requests ≤ h.acks + 1

theorem Chain.act {h : Handshake} {a : Step} (hc : Chain h) (hg : guard h a) :
    Chain (act a h) := by
  obtain ⟨h1, h2, h3, h4⟩ := hc
  cases a <;> simp only [Handshake.guard] at hg <;>
    constructor <;> simp only [Handshake.act] <;> omega

theorem chain {h : Handshake} (hr : program.Reachable h) : Chain h := by
  refine hr.invariant ?_ fun h a _ hc hg => hc.act hg
  rintro h rfl
  exact ⟨le_rfl, le_rfl, le_rfl, Nat.zero_le 1⟩

end Handshake

end Apes
