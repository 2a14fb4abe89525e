import Rush.Actor.Path

/-!
# Errors of the actor system

`Error` of `actor/src/error.rs` with the texts of its `Display`.
-/

namespace Rush
namespace Actor

open Foundation

/-- Error type for the actor system. -/
inductive ActorError
  | send (message : String)
  | unexpectedResponse (path : ActorPath) (expected : String)
  | create (path : ActorPath) (message : String)
  | exists (path : ActorPath)
  | notFound (path : ActorPath)
  | stop
  | start (message : String)
  | sendEvent (message : String)
  | createStore (message : String)
  | get (message : String)
  | entryNotFound (message : String)
  | store (message : String)
  | functional (message : String)
  | functionalFail (message : String)
  | state (message : String)
  | reTry
  | notHelper (name : String)
deriving DecidableEq

/-- `impl Display for Error`. -/
def ActorError.display : ActorError → String
  | .send m => "An error occurred while sending a message to actor: " ++ m ++ "."
  | .unexpectedResponse p m =>
      "Actor " ++ Str.text p.display ++
        " returned a response that was not expected, expected response: " ++ m
  | .create p m =>
      "An error occurred while creating an actor: " ++ Str.text p.display ++
        "/" ++ m ++ "."
  | .exists p => "Actor " ++ Str.text p.display ++ " exist."
  | .notFound p => "Actor " ++ Str.text p.display ++ " not found."
  | .stop => "An error occurred while stopping an actor."
  | .start m => "An error occurred while starting the actor system: " ++ m
  | .sendEvent m =>
      "An error occurred while sending an event to event bus: " ++ m
  | .createStore m => "Can't create store: " ++ m
  | .get m => "Get error: " ++ m
  | .entryNotFound m => "Entry not found: " ++ m
  | .store m => "Store error: " ++ m
  | .functional m => "Error: " ++ m
  | .functionalFail m => "Error: " ++ m
  | .state m => "State error: " ++ m
  | .reTry => "The maximum number of retries has been reached."
  | .notHelper n => "Helper " ++ n ++ " could not be accessed."

end Actor
end Rush
