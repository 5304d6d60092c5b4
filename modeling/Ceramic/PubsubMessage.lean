import Ceramic.StreamId

/-! The messages on the pubsub topic. -/
namespace Ceramic

inductive MsgType where
  | update
  | query
  | response
  | keepalive
  deriving DecidableEq, Repr

inductive PubsubMessage where
  | update (stream : StreamID) (tip : Cid) (model : Option StreamID)
  | query (id : String) (stream : StreamID)
  | response (id : String) (tips : List (String × Cid))
  | keepalive (ts : Nat) (ver ipfsVer : String)
  deriving DecidableEq, Repr

def PubsubMessage.typ : PubsubMessage → MsgType
  | .update _ _ _ => .update
  | .query _ _ => .query
  | .response _ _ => .response
  | .keepalive _ _ _ => .keepalive

end Ceramic
