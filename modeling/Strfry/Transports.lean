import Strfry.HttpServer

/-!
# HTTP and WebSocket submissions

The two transports share the pipeline, but the HTTP server gives `http-post` as the address of the
client. The writer takes everything that has not four bytes for an IPv6 address, so with a plugin
`renderIP` throws, and the plugin counts as having rejected the event. Without a plugin the two are
judged alike.
-/

set_option autoImplicit false

namespace Strfry

open Lib

section Transports

variable {E : RelayEnv} {w : Writer} {event : Json}

end Transports

end Strfry
