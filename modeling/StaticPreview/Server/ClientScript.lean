/-! # The script of a shell page

The script opens a socket at a path of the server, applies each message to the page, and loads the
page again some time after the socket was closed.
-/
namespace StaticPreview.Server

def clientScript (socketPath : List Char) : List Char :=
  "
(function() \x7b
  'use strict';

  const scheme = location.protocol === 'https:' ? 'wss://' : 'ws://';
  const ws = new WebSocket(scheme + location.host + '".toList ++ socketPath ++ "');
  let reconnectAttempts = 0;
  const maxReconnectAttempts = 10;

  function setStatus(success, error) \x7b
    const badge = document.getElementById('status');
    if (!badge) return;
    badge.className = 'badge ' + (success ? 'ok' : 'err');
    badge.textContent = success ? 'Rendered' : (error || 'Conversion failed');
  \x7d

  ws.onopen = function() \x7b
    console.log('[stillframe] Connected');
    reconnectAttempts = 0;
  \x7d;

  ws.onmessage = function(event) \x7b
    const msg = JSON.parse(event.data);

    switch (msg.type) \x7b
      case 'reload':
        location.reload();
        break;

      case 'refresh':
        const frame = document.getElementById('preview');
        if (!frame) \x7b
          location.reload();
          break;
        \x7d
        frame.srcdoc = msg.html;
        if (msg.file) \x7b
          const label = document.getElementById('file');
          if (label) label.textContent = msg.file;
        \x7d
        setStatus(msg.success, msg.error);
        break;

      case 'connected':
        console.log('[stillframe] Server acknowledged connection');
        break;
    \x7d
  \x7d;

  ws.onclose = function() \x7b
    console.log('[stillframe] Disconnected');
    if (reconnectAttempts < maxReconnectAttempts) \x7b
      reconnectAttempts++;
      setTimeout(function() \x7b
        location.reload();
      \x7d, 1000 * reconnectAttempts);
    \x7d
  \x7d;

  ws.onerror = function(e) \x7b
    console.error('[stillframe] WebSocket error:', e);
  \x7d;
\x7d)();
".toList

end StaticPreview.Server
